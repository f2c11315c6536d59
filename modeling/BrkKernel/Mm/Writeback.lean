import BrkKernel.Kern.Base
import BrkKernel.Lib.Actors

/-!
# Write-back of the page cache

One mapping of `mm/pagecache.c` with any number of threads. A thread looks a page up and reads it
in (`read_mapping_page`) or overwrites it as a whole, modifies it and marks it dirty, flushes a
range (`page_cache_flush_range` with `collect_dirty_batch` and `writeback_one`), or reclaims pages
(`page_cache_shrink`). A step is a section under a lock: `m->lock`, `cp->lock` or the page lock
`cp->io_lock`. Whether an allocation, a `read_page` or a `write_page` succeeds is open, and a
failed transfer may leave anything in the page or on the store. The LRU list only chooses the page
that the shrinker looks at; here it may be any.

The ghost fields record the modifications of the page at an index. `latest` are its bytes after
the latest one and `version` counts them; `marked` is the latest one whose
`cached_page_mark_dirty` has returned, `given` is the version of the bytes at the latest call of
`write_page`, and `stored` are the bytes of the latest successful call. Before any of this
`latest` and `stored` are what is on the store.
-/

set_option autoImplicit false

namespace BrkKernel.Writeback

open Lib Function

/-- The bytes of a page. -/
abbrev PageData : Type := Fin pageSize → UInt8

/-- `struct cached_page`. -/
structure CachedPage where
  index : Nat
  refcnt : Nat
  data : PageData
  uptodate : Bool
  dirty : Bool
  error : Bool
  writeback : Bool

/-- A call of `page_cache_flush_range`, with what was marked when it began and whether it was the
only one then. -/
structure FlushCall where
  first : Nat
  last : Nat
  firstErr : Option Errno
  start : Nat → Nat
  alone : Bool

/-- Where a thread is. A number that is not an index names a cached page. -/
inductive Phase where
  | idle
  /-- `find_page` has found nothing at this index. -/
  | missing (index : Nat)
  /-- `find_or_create_page` has returned. -/
  | got (cp : Nat)
  /-- `read_mapping_page` has returned. -/
  | holding (cp : Nat)
  /-- Between a modification and its `cached_page_mark_dirty`. -/
  | modified (cp version : Nat)
  /-- About to call `cached_page_put` for the last time. -/
  | dropping (cp : Nat)
  /-- In the loop of `page_cache_flush_range`. -/
  | flush (c : FlushCall) (batch : List Nat)
  /-- In `writeback_one`, past the first section. -/
  | cleared (c : FlushCall) (cp : Nat) (batch : List Nat)
  /-- In `writeback_one`, past `write_page`. -/
  | wrote (c : FlushCall) (cp : Nat) (batch : List Nat) (err : Option Errno)
  /-- In `writeback_one`, about to mark the page dirty again. -/
  | failed (c : FlushCall) (cp : Nat) (batch : List Nat) (err : Errno)
  /-- Past `writeback_one`, about to put the page. -/
  | finished (c : FlushCall) (cp : Nat) (batch : List Nat)
  /-- In `page_cache_shrink`, with a page pinned. -/
  | pinned (cp : Nat)
  /-- In `page_cache_shrink`, with a page taken out of the hash. -/
  | detached (cp : Nat)

/-- The threads below `n` are the ones there are. -/
structure CacheSys where
  cps : Nat → CachedPage
  /-- The cached pages from here on are not allocated yet. -/
  next : Nat
  hash : Nat → Option Nat
  dirtyPages : List Nat
  disk : Nat → PageData
  phase : Nat → Phase
  latest : Nat → PageData
  stored : Nat → PageData
  version : Nat → Nat
  marked : Nat → Nat
  given : Nat → Nat

section Model

variable (s : CacheSys)

/-- `!hlist_unhashed(&cp->ht_node)`. -/
def CacheSys.Hashed (cp : Nat) : Prop := s.hash (s.cps cp).index = some cp

instance (cp : Nat) : Decidable (s.Hashed cp) := inferInstanceAs (Decidable (_ = _))

def CacheSys.setCp (cp : Nat) (c : CachedPage) : CacheSys :=
  { s with cps := update s.cps cp c }

def CacheSys.setPhase (t : Nat) (ph : Phase) : CacheSys :=
  { s with phase := update s.phase t ph }

/-- `refcnt_inc(&cp->refcnt)`. -/
def CacheSys.get (cp : Nat) : CacheSys :=
  s.setCp cp { s.cps cp with refcnt := (s.cps cp).refcnt + 1 }

/-- `cached_page_put`. -/
def CacheSys.put (cp : Nat) : CacheSys :=
  s.setCp cp { s.cps cp with refcnt := (s.cps cp).refcnt - 1 }

/-- The section of `find_or_create_page` that inserts a new page, with the reference of the cache
and the one of the caller. -/
def CacheSys.insert (index : Nat) : CacheSys :=
  { s.setCp s.next ⟨index, 2, fun _ => 0, false, false, false, false⟩ with
    hash := update s.hash index (some s.next)
    next := s.next + 1 }

/-- A successful `read_page` and `cached_page_mark_uptodate`. -/
def CacheSys.readPage (cp : Nat) : CacheSys :=
  s.setCp cp
    { s.cps cp with data := s.disk (s.cps cp).index, uptodate := true, error := false }

/-- A failed `read_page`, which may leave anything in the page. -/
def CacheSys.readFailed (cp : Nat) (data : PageData) : CacheSys :=
  s.setCp cp { s.cps cp with data := data, error := true }

/-- A writer replaces the bytes of the page, under the page lock. With `fill` it replaces all of
them and calls `cached_page_mark_uptodate`. -/
def CacheSys.modify (cp : Nat) (data : PageData) (fill : Bool) : CacheSys :=
  { s.setCp cp
      { s.cps cp with
        data := data
        uptodate := fill || (s.cps cp).uptodate
        error := !fill && (s.cps cp).error } with
    latest := update s.latest (s.cps cp).index data
    version := update s.version (s.cps cp).index (s.version (s.cps cp).index + 1) }

/-- `cached_page_mark_dirty`. -/
def CacheSys.markDirty (cp : Nat) : CacheSys :=
  { s.setCp cp { s.cps cp with dirty := true } with
    dirtyPages := if (s.cps cp).dirty then s.dirtyPages else s.dirtyPages ++ [cp] }

/-- The modification `version` is marked. -/
def CacheSys.noteMarked (cp version : Nat) : CacheSys :=
  { s with
    marked := update s.marked (s.cps cp).index
      (max (s.marked (s.cps cp).index) version) }

/-- The pages that `collect_dirty_batch` takes. -/
def CacheSys.dirtyBatch (first last : Nat) : List Nat :=
  s.dirtyPages.filter fun cp => decide (first ≤ (s.cps cp).index ∧ (s.cps cp).index ≤ last)

/-- `collect_dirty_batch`. -/
def CacheSys.collectDirtyBatch (first last : Nat) : CacheSys :=
  { s with
    cps := fun cp =>
      { s.cps cp with refcnt := (s.cps cp).refcnt + (s.dirtyBatch first last).count cp }
    dirtyPages := s.dirtyPages.filter
      fun cp => !decide (first ≤ (s.cps cp).index ∧ (s.cps cp).index ≤ last) }

/-- The first section of `writeback_one`. The page has left the batch. -/
def CacheSys.clearDirty (cp : Nat) : CacheSys :=
  s.setCp cp
    { s.cps cp with
      dirty := false
      writeback := (s.cps cp).uptodate || (s.cps cp).writeback }

/-- A successful `write_page`. -/
def CacheSys.writePage (cp : Nat) : CacheSys :=
  { s with
    disk := update s.disk (s.cps cp).index (s.cps cp).data
    stored := update s.stored (s.cps cp).index (s.cps cp).data
    given := update s.given (s.cps cp).index (s.version (s.cps cp).index) }

/-- A failed `write_page`, which may leave anything on the store. -/
def CacheSys.writeFailed (cp : Nat) (data : PageData) : CacheSys :=
  { s with
    disk := update s.disk (s.cps cp).index data
    given := update s.given (s.cps cp).index (s.version (s.cps cp).index) }

/-- The last section of `writeback_one` under `cp->lock`. -/
def CacheSys.endWriteback (cp : Nat) (err : Option Errno) : CacheSys :=
  s.setCp cp
    { s.cps cp with
      writeback := false
      error := err.isSome || (s.cps cp).error }

/-- The result of `writeback_one` in `page_cache_flush_range`. -/
def FlushCall.note (c : FlushCall) (err : Errno) : FlushCall :=
  { c with firstErr := some (c.firstErr.getD err) }

/-- `__detach_locked`. -/
def CacheSys.detachLocked (cp : Nat) : CacheSys :=
  { s.setCp cp { s.cps cp with dirty := false } with
    hash := update s.hash (s.cps cp).index none
    dirtyPages := if (s.cps cp).dirty then s.dirtyPages.erase cp else s.dirtyPages }

/-- `page_cache_shrink` may take the page out of the hash. -/
def CacheSys.Reclaimable (cp : Nat) : Prop :=
  (s.cps cp).refcnt = 2 ∧ (s.cps cp).dirty = false ∧ (s.cps cp).writeback = false ∧ s.Hashed cp

/-- The thread is in `page_cache_flush_range`. -/
def Phase.call : Phase → Option FlushCall
  | .flush c _ | .cleared c _ _ | .wrote c _ _ _ | .failed c _ _ _ | .finished c _ _ => some c
  | _ => none

/-- The first page of a range, and the last one; a negative end means all pages. -/
def flushFirst (start : Int) : Nat := (max start 0).toNat / pageSize

def flushLast (stop : Int) : Nat := if stop < 0 then 2 ^ 64 - 1 else stop.toNat / pageSize

/-- A call of `page_cache_flush_range` that begins now. -/
def CacheSys.newCall (n : Nat) (start stop : Int) : FlushCall :=
  ⟨flushFirst start, flushLast stop, none, s.marked,
    (List.range n).all fun u => (s.phase u).call.isNone⟩

end Model

/-- One section of one thread. -/
inductive CacheStep (n : Nat) (s : CacheSys) : CacheSys → Prop
  | findHit {t index cp : Nat} (ht : t < n) (hp : s.phase t = .idle)
      (hh : s.hash index = some cp) : CacheStep n s ((s.get cp).setPhase t (.got cp))
  | findMiss {t index : Nat} (ht : t < n) (hp : s.phase t = .idle) (hh : s.hash index = none) :
      CacheStep n s (s.setPhase t (.missing index))
  | allocFailed {t index : Nat} (ht : t < n) (hp : s.phase t = .missing index) :
      CacheStep n s (s.setPhase t .idle)
  | insertHit {t index cp : Nat} (ht : t < n) (hp : s.phase t = .missing index)
      (hh : s.hash index = some cp) : CacheStep n s ((s.get cp).setPhase t (.got cp))
  | insertNew {t index : Nat} (ht : t < n) (hp : s.phase t = .missing index)
      (hh : s.hash index = none) :
      CacheStep n s ((s.insert index).setPhase t (.got s.next))
  | hitUptodate {t cp : Nat} (ht : t < n) (hp : s.phase t = .got cp)
      (hu : (s.cps cp).uptodate = true) : CacheStep n s (s.setPhase t (.holding cp))
  | read {t cp : Nat} (ht : t < n) (hp : s.phase t = .got cp)
      (hu : (s.cps cp).uptodate = false) :
      CacheStep n s ((s.readPage cp).setPhase t (.holding cp))
  | readError {t cp : Nat} (ht : t < n) (hp : s.phase t = .got cp)
      (hu : (s.cps cp).uptodate = false) (data : PageData) :
      CacheStep n s ((s.readFailed cp data).setPhase t (.dropping cp))
  | modify {t cp : Nat} (ht : t < n) (hp : s.phase t = .holding cp) (data : PageData) :
      CacheStep n s
        ((s.modify cp data false).setPhase t (.modified cp (s.version (s.cps cp).index + 1)))
  | overwrite {t cp : Nat} (ht : t < n) (hp : s.phase t = .got cp) (data : PageData) :
      CacheStep n s
        ((s.modify cp data true).setPhase t (.modified cp (s.version (s.cps cp).index + 1)))
  | mark {t cp version : Nat} (ht : t < n) (hp : s.phase t = .modified cp version) :
      CacheStep n s (((s.markDirty cp).noteMarked cp version).setPhase t (.holding cp))
  | release {t cp : Nat} (ht : t < n) (hp : s.phase t = .holding cp) :
      CacheStep n s (s.setPhase t (.dropping cp))
  | drop {t cp : Nat} (ht : t < n) (hp : s.phase t = .dropping cp) :
      CacheStep n s ((s.put cp).setPhase t .idle)
  | flushStart {t : Nat} (ht : t < n) (hp : s.phase t = .idle) (start stop : Int) :
      CacheStep n s ((s.collectDirtyBatch (flushFirst start) (flushLast stop)).setPhase t
        (.flush (s.newCall n start stop) (s.dirtyBatch (flushFirst start) (flushLast stop))))
  | clear {t cp : Nat} {c : FlushCall} {batch : List Nat} (ht : t < n)
      (hp : s.phase t = .flush c (cp :: batch)) (hu : (s.cps cp).uptodate = true) :
      CacheStep n s ((s.clearDirty cp).setPhase t (.cleared c cp batch))
  | clearEmpty {t cp : Nat} {c : FlushCall} {batch : List Nat} (ht : t < n)
      (hp : s.phase t = .flush c (cp :: batch)) (hu : (s.cps cp).uptodate = false) :
      CacheStep n s ((s.clearDirty cp).setPhase t (.finished c cp batch))
  | write {t cp : Nat} {c : FlushCall} {batch : List Nat} (ht : t < n)
      (hp : s.phase t = .cleared c cp batch) :
      CacheStep n s ((s.writePage cp).setPhase t (.wrote c cp batch none))
  | writeError {t cp : Nat} {c : FlushCall} {batch : List Nat} (ht : t < n)
      (hp : s.phase t = .cleared c cp batch) (data : PageData) (err : Errno) :
      CacheStep n s ((s.writeFailed cp data).setPhase t (.wrote c cp batch (some err)))
  | writeDone {t cp : Nat} {c : FlushCall} {batch : List Nat} (ht : t < n)
      (hp : s.phase t = .wrote c cp batch none) :
      CacheStep n s ((s.endWriteback cp none).setPhase t (.finished c cp batch))
  | writeUndone {t cp : Nat} {c : FlushCall} {batch : List Nat} {err : Errno} (ht : t < n)
      (hp : s.phase t = .wrote c cp batch (some err)) :
      CacheStep n s ((s.endWriteback cp (some err)).setPhase t (.failed c cp batch err))
  | redirty {t cp : Nat} {c : FlushCall} {batch : List Nat} {err : Errno} (ht : t < n)
      (hp : s.phase t = .failed c cp batch err) :
      CacheStep n s ((s.markDirty cp).setPhase t (.finished (c.note err) cp batch))
  | flushPut {t cp : Nat} {c : FlushCall} {batch : List Nat} (ht : t < n)
      (hp : s.phase t = .finished c cp batch) :
      CacheStep n s ((s.put cp).setPhase t (.flush c batch))
  | flushReturn {t : Nat} {c : FlushCall} (ht : t < n) (hp : s.phase t = .flush c []) :
      CacheStep n s (s.setPhase t .idle)
  | pin {t cp : Nat} (ht : t < n) (hp : s.phase t = .idle) (hr : (s.cps cp).refcnt ≠ 0) :
      CacheStep n s ((s.get cp).setPhase t (.pinned cp))
  | skip {t cp : Nat} (ht : t < n) (hp : s.phase t = .pinned cp) (hr : ¬ s.Reclaimable cp) :
      CacheStep n s (s.setPhase t (.dropping cp))
  | detach {t cp : Nat} (ht : t < n) (hp : s.phase t = .pinned cp) (hr : s.Reclaimable cp) :
      CacheStep n s ((s.detachLocked cp).setPhase t (.detached cp))
  | putCache {t cp : Nat} (ht : t < n) (hp : s.phase t = .detached cp) :
      CacheStep n s ((s.put cp).setPhase t (.dropping cp))

/-- An empty cache in front of a store, with all threads idle. -/
def emptyCache (disk : Nat → PageData) : CacheSys :=
  { cps := fun _ => ⟨0, 0, fun _ => 0, false, false, false, false⟩
    next := 0
    hash := fun _ => none
    dirtyPages := []
    disk := disk
    phase := fun _ => .idle
    latest := disk
    stored := disk
    version := fun _ => 0
    marked := fun _ => 0
    given := fun _ => 0 }

end BrkKernel.Writeback
