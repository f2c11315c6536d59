import BrkKernel.Mm.PageCache

/-!
# The view of a page cache

The pages of a mapping that are up to date are the lines of a write-back cache in front of the bytes
of the host. `Shows back m B` says that a reader of the mapping `m` sees the bytes `B`. Under
`HostSpec`, the assumptions on the host, `generic_file_read` returns bytes of the view
(`genericFileRead_spec`), `generic_file_write` overwrites the view (`genericFileWrite_spec`),
`page_cache_flush` moves it to the host (`pageCacheFlush_spec`) and `truncate_inode_pages` cuts it
(`truncateInodePages_spec`).
-/

set_option autoImplicit false

namespace BrkKernel.Mm

open Lib Lib.ByteMem Function PageCache WriteBack List

variable {f : ByteFile} {m m' : ByteMem} {l : Line (Fin pageSize → UInt8)}

/-! ## Pages of a byte memory -/

/-- Page `i` of a byte memory. -/
def page (m : ByteMem) (i : Nat) : Fin pageSize → UInt8 := fun k => m (i * pageSize + k)

theorem page_eq_iff {i j : Nat} : page m i = page m' j ↔
    ∀ k < pageSize, m (i * pageSize + k) = m' (j * pageSize + k) := by
  constructor
  · intro h k hk
    exact congrFun h ⟨k, hk⟩
  · intro h
    funext k
    exact h k k.2

theorem page_inj (h : page m = page m') : m = m' := by
  funext a
  have hk := page_eq_iff.1 (congrFun h (a / pageSize)) (a % pageSize) (Nat.mod_lt _ (by decide))
  rwa [Nat.div_add_mod'] at hk

theorem page_congr {i : Nat} (h : ∀ a, a / pageSize = i → m a = m' a) : page m i = page m' i := by
  rw [page_eq_iff]
  intro k hk
  refine h _ ?_
  unfold pageSize at hk ⊢
  omega

/-- Replacing the bytes of page `i`. -/
theorem page_blit (B d : ByteMem) (i : Nat) :
    page (blit B (i * pageSize) pageSize d) = update (page B) i (page d 0) := by
  refine eq_update_iff.2 ⟨page_eq_iff.2 fun k hk => ?_, fun j hj => page_eq_iff.2 fun k hk => ?_⟩
  · rw [blit_of_mem (by omega) (by omega), zero_mul, zero_add, Nat.add_sub_cancel_left]
  · refine blit_of_disjoint ?_
    unfold pageSize at hk ⊢
    omega

/-- A copy inside page `i`, made on the bytes of the page. -/
theorem blit_page {B d : ByteMem} {i : Nat} (off n : Nat) (src : ByteMem) (hin : off + n ≤ pageSize)
    (h : page d 0 = page B i) :
    blit B (i * pageSize) pageSize (blit d off n src) = blit B (i * pageSize + off) n src := by
  funext a
  by_cases hp : i * pageSize ≤ a ∧ a < i * pageSize + pageSize
  · rw [blit_of_mem hp.1 hp.2]
    by_cases hc : i * pageSize + off ≤ a ∧ a < i * pageSize + off + n
    · rw [blit_of_mem (by omega) (by omega), blit_of_mem hc.1 hc.2, Nat.sub_sub]
    · have hbyte := page_eq_iff.1 h (a - i * pageSize) (by omega)
      rw [zero_mul, zero_add, Nat.add_sub_cancel' hp.1] at hbyte
      rw [blit_of_disjoint (by omega), blit_of_disjoint (by omega), hbyte]
  · rw [blit_of_disjoint (by omega), blit_of_disjoint (by omega)]

/-! ## Lines and dirty pages -/

section Lines

variable {σ : Type} {m m' : PageCache σ} {i j : Nat} {cp : CachedPage} {batch : List Nat}

/-- The lines of the write-back cache: the pages that are up to date. -/
def PageCache.lines (m : PageCache σ) (i : Nat) : Option (Line (Fin pageSize → UInt8)) :=
  match m.pages i with
  | some cp => if cp.uptodate then some ⟨page cp.data 0, cp.dirty⟩ else none
  | none => none

/-- The page at `i` is marked dirty. -/
def PageCache.IsDirty (m : PageCache σ) (i : Nat) : Prop :=
  ∃ cp, m.pages i = some cp ∧ cp.dirty = true

/-- The dirty pages are those of the dirty list and of the batch being written back. -/
structure PageCache.DirtyList (m : PageCache σ) (batch : List Nat) : Prop where
  nodup : (batch ++ m.dirtyPages).Nodup
  mem_iff : ∀ i, i ∈ batch ++ m.dirtyPages ↔ m.IsDirty i

theorem lines_of_uptodate (h : m.pages i = some cp) (hu : cp.uptodate = true) :
    m.lines i = some ⟨page cp.data 0, cp.dirty⟩ := by
  simp only [lines, h, hu, if_true]

theorem lines_of_stale (h : m.pages i = some cp) (hu : cp.uptodate = false) : m.lines i = none := by
  simp only [lines, h, hu, Bool.false_eq_true, if_false]

theorem lines_of_none (h : m.pages i = none) : m.lines i = none := by
  simp only [lines, h]

theorem lines_eq_some (h : m.lines i = some l) :
    ∃ cp, m.pages i = some cp ∧ cp.uptodate = true ∧ l = ⟨page cp.data 0, cp.dirty⟩ := by
  cases hp : m.pages i with
  | none =>
    rw [lines_of_none hp] at h
    cases h
  | some cp =>
    cases hu : cp.uptodate with
    | false =>
      rw [lines_of_stale hp hu] at h
      cases h
    | true =>
      rw [lines_of_uptodate hp hu] at h
      cases h
      exact ⟨cp, rfl, hu, rfl⟩

theorem pages_setPage (m : PageCache σ) (i : Nat) (cp : CachedPage) :
    (m.setPage i cp).pages i = some cp := update_self ..

theorem pages_setPage_of_ne (cp : CachedPage) (h : j ≠ i) :
    (m.setPage i cp).pages j = m.pages j := update_of_ne h _ _

theorem host_setPage (m : PageCache σ) (i : Nat) (cp : CachedPage) :
    (m.setPage i cp).host = m.host := rfl

theorem setPage_setPage (m : PageCache σ) (i : Nat) (cp cp' : CachedPage) :
    (m.setPage i cp).setPage i cp' = m.setPage i cp' := by
  simp only [setPage, update_idem]

theorem lines_congr (h : m'.pages j = m.pages j) : m'.lines j = m.lines j := by
  rw [lines, lines, h]

theorem lines_update (cp : CachedPage) (hu : cp.uptodate = true)
    (h : m'.pages = update m.pages i (some cp)) :
    m'.lines = update m.lines i (some ⟨page cp.data 0, cp.dirty⟩) := by
  rw [eq_update_iff]
  exact ⟨lines_of_uptodate (by rw [h, update_self]) hu,
    fun j hj => lines_congr (by rw [h, update_of_ne hj])⟩

theorem not_isDirty_of_none (h : m.pages i = none) : ¬ m.IsDirty i := by
  rintro ⟨cp, hcp, -⟩
  rw [h] at hcp
  cases hcp

theorem isDirty_iff_of_some (h : m.pages i = some cp) : m.IsDirty i ↔ cp.dirty = true := by
  constructor
  · rintro ⟨c, hc, hd⟩
    rw [h] at hc
    cases hc
    exact hd
  · intro hd
    exact ⟨cp, h, hd⟩

theorem isDirty_setPage (m : PageCache σ) (i : Nat) (cp : CachedPage) :
    (m.setPage i cp).IsDirty i ↔ cp.dirty = true := isDirty_iff_of_some (pages_setPage m i cp)

theorem isDirty_congr (h : m'.pages j = m.pages j) : m'.IsDirty j ↔ m.IsDirty j := by
  rw [PageCache.IsDirty, PageCache.IsDirty, h]

/-- Changing a page without changing its dirty flag. -/
theorem PageCache.DirtyList.setPage (h : m.DirtyList batch)
    (hd : cp.dirty = true ↔ m.IsDirty i) : (m.setPage i cp).DirtyList batch where
  nodup := h.nodup
  mem_iff j := by
    by_cases hj : j = i
    · subst hj
      rw [isDirty_setPage, hd]
      exact h.mem_iff j
    · rw [isDirty_congr (pages_setPage_of_ne cp hj)]
      exact h.mem_iff j

theorem pages_markDirty_of_ne (h : j ≠ i) : (cachedPageMarkDirty m i).pages j = m.pages j := by
  unfold cachedPageMarkDirty
  split
  · rfl
  · split
    · rfl
    · exact pages_setPage_of_ne _ h

/-- Marking a cached page that was given new bytes. -/
theorem cachedPageMarkDirty_spec (h : m.DirtyList batch) (hpage : m.pages i = some cp) :
    (cachedPageMarkDirty m i).host = m.host ∧ (cachedPageMarkDirty m i).pages =
        update m.pages i (some { cp with dirty := true }) ∧
      (cachedPageMarkDirty m i).DirtyList batch := by
  cases hd : cp.dirty with
  | true =>
    have hsame : cachedPageMarkDirty m i = m := by
      simp only [cachedPageMarkDirty, hpage, hd, if_true]
    rw [hsame]
    refine ⟨rfl, ?_, h⟩
    rw [← hd, ← hpage, update_eq_self]
  | false =>
    have hmark : cachedPageMarkDirty m i =
        { m.setPage i { cp with dirty := true } with dirtyPages := m.dirtyPages ++ [i] } := by
      simp only [cachedPageMarkDirty, hpage, hd, Bool.false_eq_true, if_false]
    have hclean : ¬ m.IsDirty i := by
      rw [isDirty_iff_of_some hpage, hd]
      exact Bool.false_ne_true
    rw [hmark]
    refine ⟨rfl, rfl, ?_, ?_⟩
    · rw [← append_assoc]
      refine nodup_append.2 ⟨h.nodup, pairwise_singleton _ i, ?_⟩
      rintro j hj k hk rfl
      rw [mem_singleton] at hk
      subst hk
      exact hclean ((h.mem_iff j).1 hj)
    · intro j
      show j ∈ batch ++ (m.dirtyPages ++ [i]) ↔ (m.setPage i { cp with dirty := true }).IsDirty j
      by_cases hj : j = i
      · subst hj
        simp [isDirty_setPage]
      · rw [isDirty_congr (pages_setPage_of_ne _ hj), ← h.mem_iff j]
        simp [hj]

end Lines

/-! ## The view -/

section View

variable {σ : Type} {back : σ → ByteMem} {m : PageCache σ} {B d : ByteMem} {i : Nat}
  {cp : CachedPage} {batch : List Nat}

/-- A reader of the mapping sees the bytes `B`. -/
structure Shows (back : σ → ByteMem) (m : PageCache σ) (B : ByteMem) : Prop where
  coherent : WriteBack.Coherent m.lines (page (back m.host))
  view : WriteBack.view m.lines (page (back m.host)) = page B

theorem Shows.congr {m' : PageCache σ} (h : Shows back m B) (hlines : m'.lines = m.lines)
    (hback : back m'.host = back m.host) : Shows back m' B := by
  refine ⟨?_, ?_⟩
  · rw [hlines, hback]
    exact h.coherent
  · rw [hlines, hback]
    exact h.view

/-- Changes to the host that are not to its bytes. -/
theorem Shows.setHost {h' : σ} (h : Shows back m B) (hback : back h' = back m.host) :
    Shows back { m with host := h' } B := h.congr rfl hback

theorem PageCache.DirtyList.setHost (h : m.DirtyList batch) (h' : σ) :
    PageCache.DirtyList { m with host := h' } batch := ⟨h.nodup, h.mem_iff⟩

/-- An empty mapping shows the bytes of its host. -/
theorem shows_create (back : σ → ByteMem) (h : σ) : Shows back (pageCacheCreate h) (back h) where
  coherent i l hl := by cases hl
  view := rfl

theorem dirtyList_create (h : σ) : (pageCacheCreate h).DirtyList [] where
  nodup := nodup_nil
  mem_iff i := by
    constructor
    · intro hi
      cases hi
    · rintro ⟨cp, hcp, -⟩
      cases hcp

section

variable (h : Shows back m B)

include h

theorem Shows.page_of_uptodate (hpage : m.pages i = some cp)
    (hu : cp.uptodate = true) : page cp.data 0 = page B i := by
  rw [← h.view, view_of_some _ (lines_of_uptodate hpage hu)]

theorem Shows.page_of_no_line (hl : m.lines i = none) : page (back m.host) i = page B i := by
  rw [← h.view, view_of_none _ hl]

/-- Caching the bytes of a page. -/
theorem Shows.install (hu : cp.uptodate = true) (hB : page cp.data 0 = page B i)
    (hclean : cp.dirty = false → page cp.data 0 = page (back m.host) i) :
    Shows back (m.setPage i cp) B where
  coherent := by
    rw [lines_update cp hu rfl]
    exact h.coherent.set hclean
  view := by
    rw [lines_update cp hu rfl, ← h.view]
    refine view_update_same ?_
    exact (congrFun h.view i).trans hB.symm

/-- Giving a page new bytes and marking it dirty. -/
theorem Shows.store (hdirty : m.DirtyList batch) (i : Nat) (cp : CachedPage)
    (hu : cp.uptodate = true) (hd : cp.dirty = true ↔ m.IsDirty i) :
    (cachedPageMarkDirty (m.setPage i cp) i).host = m.host ∧
      Shows back (cachedPageMarkDirty (m.setPage i cp) i) (blit B (i * pageSize) pageSize cp.data) ∧
      (cachedPageMarkDirty (m.setPage i cp) i).DirtyList batch := by
  obtain ⟨hhost, hpages, hlist⟩ :=
    cachedPageMarkDirty_spec (hdirty.setPage hd) (pages_setPage m i cp)
  have hlines : (cachedPageMarkDirty (m.setPage i cp) i).lines =
      update m.lines i (some ⟨page cp.data 0, true⟩) := by
    have hupdate : (cachedPageMarkDirty (m.setPage i cp) i).pages =
        update m.pages i (some { cp with dirty := true }) := by
      rw [hpages, setPage, update_idem]
    exact lines_update { cp with dirty := true } hu hupdate
  refine ⟨hhost, ⟨?_, ?_⟩, hlist⟩
  · rw [hlines, hhost]
    refine h.coherent.set ?_
    intro hfalse
    cases hfalse
  · rw [hlines, hhost, view_update_some, page_blit]
    exact congrArg (fun P => update P i (page cp.data 0)) h.view

/-- Dropping a page that is not dirty. -/
theorem Shows.drop (hdirty : m.DirtyList []) (hd : ¬ m.IsDirty i) :
    Shows back { m with pages := update m.pages i none } B ∧
      PageCache.DirtyList { m with pages := update m.pages i none } [] := by
  have hlines : lines { m with pages := update m.pages i none } = update m.lines i none := by
    refine eq_update_iff.2 ⟨?_, fun j hj => ?_⟩
    · simp only [lines, update_self]
    · simp only [lines, update_of_ne hj]
  have hclean : ∀ l, m.lines i = some l → l.dirty = false := by
    intro l hl
    obtain ⟨cp, hp, -, rfl⟩ := lines_eq_some hl
    cases hcd : cp.dirty with
    | false => rfl
    | true => exact absurd ⟨cp, hp, hcd⟩ hd
  obtain ⟨hc, hv⟩ := h.coherent.drop hclean
  refine ⟨⟨?_, ?_⟩, hdirty.nodup, ?_⟩
  · rw [hlines]
    exact hc
  · rw [hlines, ← h.view]
    exact hv
  intro j
  rw [hdirty.mem_iff j]
  by_cases hj : j = i
  · subst hj
    exact iff_of_false hd (not_isDirty_of_none (update_self ..))
  · refine (isDirty_congr ?_).symm
    exact update_of_ne hj _ _

end

/-- With an empty dirty list no line is dirty. -/
theorem PageCache.DirtyList.clean (hdirty : m.DirtyList []) (hnil : m.dirtyPages = [])
    (hl : m.lines i = some l) : l.dirty = false := by
  obtain ⟨cp, hp, -, rfl⟩ := lines_eq_some hl
  cases hd : cp.dirty with
  | false => rfl
  | true =>
    have hmem := (hdirty.mem_iff i).2 ⟨cp, hp, hd⟩
    rw [hnil] at hmem
    cases hmem

/-- With an empty dirty list the host holds the view. -/
theorem Shows.back_eq (h : Shows back m B) (hdirty : m.DirtyList []) (hnil : m.dirtyPages = []) :
    back m.host = B := by
  refine page_inj ?_
  rw [← h.view]
  exact (h.coherent.view_eq fun i l hl => hdirty.clean hnil hl).symm

/-- A mapping without dirty pages in front of a host with other bytes, of which the cached pages
have the right ones. -/
theorem Shows.rebase (h : Shows back m B) (h' : σ) (hdirty : m.DirtyList [])
    (hnil : m.dirtyPages = []) (hpages : ∀ i, m.pages i ≠ none → page (back h') i = page B i) :
    Shows back { m with host := h' } (back h') := by
  have hc : WriteBack.Coherent m.lines (page (back h')) := by
    intro i l hl _
    obtain ⟨cp, hp, hu, rfl⟩ := lines_eq_some hl
    rw [hpages i (by rw [hp]; exact Option.some_ne_none cp)]
    exact h.page_of_uptodate hp hu
  exact ⟨hc, hc.view_eq fun i l hl => hdirty.clean hnil hl⟩

end View

/-! ## The host of a mapping -/

/-- What the page cache needs of its host: `I` is the invariant of the host, `back` its bytes, `E`
the errors a write-back may return. Pages up to `lim` can be read. A write-back gets a page that is
zero past the end of the file; it stores the page or fails, and leaves the other pages alone. -/
structure HostSpec {σ : Type} (ops : InodeOps σ) (lim : Nat) (I : σ → Prop) (back : σ → ByteMem)
    (E : Errno → Prop) : Prop where
  alloc : ∀ h, I h → ops.alloc h = (true, h)
  readPage : ∀ h i data, I h → i < lim →
    ∃ data', ops.readPage h i data = (.ok (), data', h) ∧ page data' 0 = page (back h) i
  writePage : ∀ h i data, I h →
    (∀ k < pageSize, ops.isize h ≤ i * pageSize + k → data k = 0) →
    ∃ res data' h', ops.writePage h i data = (res, data', h') ∧ I h' ∧
      ops.isize h' = ops.isize h ∧ page data' 0 = page data 0 ∧
      (∀ j, j ≠ i → page (back h') j = page (back h) j) ∧
      ((res = .ok () ∧ page (back h') i = page data 0) ∨ ∃ e, res = .error e ∧ E e)
  isize_lt : ∀ h, I h → ops.isize h < lim * pageSize
  zero : ∀ h a, I h → ops.isize h ≤ a → back h a = 0
  setIsize : ∀ h n, I h → ops.isize h ≤ n → n < lim * pageSize →
    I (ops.setIsize h n) ∧ ops.isize (ops.setIsize h n) = n ∧ back (ops.setIsize h n) = back h
  touchMtime : ∀ h now, I h → I (ops.touchMtime h now) ∧
    ops.isize (ops.touchMtime h now) = ops.isize h ∧ back (ops.touchMtime h now) = back h

/-- A mapping that shows the file `f`. -/
structure ShowsFile {σ : Type} (ops : InodeOps σ) (I : σ → Prop) (back : σ → ByteMem)
    (m : PageCache σ) (f : ByteFile) : Prop where
  host : I m.host
  shows : Shows back m (ofList f)
  dirtyList : m.DirtyList []
  size : ops.isize m.host = f.length

section Operations

variable {σ : Type} {ops : InodeOps σ} {lim : Nat} {I : σ → Prop} {back : σ → ByteMem}
  {E : Errno → Prop} {m : PageCache σ} {B : ByteMem} {i : Nat} {batch : List Nat}

section

variable (hs : HostSpec ops lim I back E)

include hs

/-- `find_or_create_page` returns the cached page or a new one that is not up to date. -/
theorem findOrCreatePage_spec (hI : I m.host) (i : Nat) :
    ∃ old m1, findOrCreatePage ops.toPageCacheOps m i = (some old, m1) ∧ m1.host = m.host ∧
      (∀ cp, m1.setPage i cp = m.setPage i cp) ∧ (old.dirty = true ↔ m.IsDirty i) ∧
      (old.uptodate = true ∧ m1 = m ∧ m.pages i = some old ∨
        old.uptodate = false ∧ m.lines i = none) := by
  cases hp : m.pages i with
  | some cp =>
    refine ⟨cp, m, by simp only [findOrCreatePage, hp], rfl, fun _ => rfl,
      (isDirty_iff_of_some hp).symm, ?_⟩
    cases hu : cp.uptodate with
    | true => exact .inl ⟨rfl, rfl, rfl⟩
    | false => exact .inr ⟨rfl, lines_of_stale hp hu⟩
  | none =>
    refine ⟨freshPage, m.setPage i freshPage, ?_, rfl, setPage_setPage m i freshPage,
      iff_of_false Bool.false_ne_true (not_isDirty_of_none hp), .inr ⟨rfl, lines_of_none hp⟩⟩
    simp only [findOrCreatePage, hp, cachedPageAlloc, hs.alloc _ hI]

/-- A page that is not up to date is filled from the host. -/
theorem Shows.fill (hI : I m.host) (h : Shows back m B)
    (hd : m.DirtyList []) (hi : i < lim) (hl : m.lines i = none) (old : CachedPage)
    (hold : old.dirty = true ↔ m.IsDirty i) :
    ∃ data, ops.readPage m.host i old.data = (.ok (), data, m.host) ∧ page data 0 = page B i ∧
      Shows back (m.setPage i { old with data := data, uptodate := true }) B ∧
      (m.setPage i { old with data := data, uptodate := true }).DirtyList [] := by
  obtain ⟨data, hread, hpage⟩ := hs.readPage m.host i old.data hI hi
  have hB : page data 0 = page B i := hpage.trans (h.page_of_no_line hl)
  exact ⟨data, hread, hB, h.install rfl hB fun _ => hpage, hd.setPage hold⟩

/-- `read_mapping_page` yields the bytes of the view. -/
theorem readMappingPage_spec (hI : I m.host)
    (h : Shows back m B) (hd : m.DirtyList []) (hi : i < lim) :
    ∃ cp m', readMappingPage ops.toPageCacheOps m i = (.ok cp, m') ∧ m'.host = m.host ∧
      m'.pages i = some cp ∧ (∀ j, j ≠ i → m'.pages j = m.pages j) ∧ cp.uptodate = true ∧
      page cp.data 0 = page B i ∧ Shows back m' B ∧ m'.DirtyList [] := by
  obtain ⟨old, m1, hfind, hhost, hset, hold, ⟨hu, rfl, hp⟩ | ⟨hu, hl⟩⟩ :=
    findOrCreatePage_spec hs hI i
  · refine ⟨old, m1, ?_, rfl, hp, fun _ _ => rfl, hu, h.page_of_uptodate hp hu, h, hd⟩
    simp only [readMappingPage, hfind, hu, if_true]
  · obtain ⟨data, hread, hB, hshow, hdirty⟩ := h.fill hs hI hd hi hl old hold
    refine ⟨{ old with data := data, uptodate := true },
      m.setPage i { old with data := data, uptodate := true }, ?_, rfl, pages_setPage m i _,
      fun _ => pages_setPage_of_ne _, rfl, hB, hshow, hdirty⟩
    simp only [readMappingPage, hfind, hu, Bool.false_eq_true, if_false, hhost, hread]
    rw [← hset, ← hhost]

end

/-! ### Reading -/

theorem div_lt_of_lt_mul {a n : Nat} (h : a < n * pageSize) : a / pageSize < n :=
  Nat.div_lt_of_lt_mul (by rwa [mul_comm])

/-- Part of a cached page, as bytes of the view. -/
theorem slice_page {d : ByteMem} {pos n : Nat} (h : page d 0 = page B (pos / pageSize))
    (hn : pos % pageSize + n ≤ pageSize) : slice d (pos % pageSize) n = slice B pos n := by
  refine slice_congr fun k hk => ?_
  have hbyte := page_eq_iff.1 h (pos % pageSize + k) (by omega)
  rw [zero_mul, zero_add, ← add_assoc, Nat.div_add_mod'] at hbyte
  exact hbyte

section

variable (hs : HostSpec ops lim I back E)

include hs

theorem fileReadLoop_spec {fuel : Nat} (size pos : Nat) (out : List UInt8) (hI : I m.host)
    (h : Shows back m B) (hd : m.DirtyList []) (hfuel : size ≤ fuel)
    (hlim : pos + size ≤ lim * pageSize) :
    ∃ m', fileReadLoop ops.toPageCacheOps fuel m size pos out =
        (none, out ++ slice B pos size, m') ∧ m'.host = m.host ∧ Shows back m' B ∧
      m'.DirtyList [] := by
  induction fuel generalizing m size pos out with
  | zero =>
    obtain rfl : size = 0 := by omega
    refine ⟨m, ?_, rfl, h, hd⟩
    rw [slice, append_nil]
    rfl
  | succ fuel ih =>
    by_cases hz : size = 0
    · subst hz
      refine ⟨m, ?_, rfl, h, hd⟩
      rw [fileReadLoop, if_pos rfl, slice, append_nil]
    have hoff := Nat.mod_lt pos pageSize_pos
    obtain ⟨cp, m1, hread, hhost, -, -, -, hpage, h1, hd1⟩ :=
      readMappingPage_spec hs hI h hd (div_lt_of_lt_mul (a := pos) (by omega))
    rw [fileReadLoop, if_neg hz]
    generalize hnr : min (pageSize - pos % pageSize) size = nr
    have hnr1 : 0 < nr ∧ nr ≤ size ∧ pos % pageSize + nr ≤ pageSize := by omega
    obtain ⟨m', hrun, hhost', h', hd'⟩ := ih (size - nr) (pos + nr)
      (out ++ slice cp.data (pos % pageSize) nr) (hhost ▸ hI) h1 hd1 (by omega) (by omega)
    refine ⟨m', ?_, hhost'.trans hhost, h', hd'⟩
    simp only [hread, hrun, hnr]
    rw [slice_page hpage hnr1.2.2, append_assoc, slice_append, Nat.add_sub_cancel' hnr1.2.1]

/-- `generic_file_read` returns the bytes of the file. -/
theorem genericFileRead_spec (h : ShowsFile ops I back m f) (size pos : Nat) :
    ∃ m', genericFileRead ops m size pos = (.ok (f.read pos size), m') ∧
      ShowsFile ops I back m' f := by
  have hlen := hs.isize_lt _ h.host
  rw [h.size] at hlen
  by_cases hpos : f.length ≤ pos
  · refine ⟨m, ?_, h⟩
    rw [genericFileRead, h.size, if_pos hpos, ByteFile.read_eq]
    have hz : min size (f.length - pos) = 0 := by omega
    rw [hz]
    rfl
  have hclip : (if pos + size > f.length then f.length - pos else size) =
      min size (f.length - pos) := by
    split <;> omega
  obtain ⟨m', hrun, hhost, h', hd'⟩ := fileReadLoop_spec hs _ pos [] h.host h.shows
    h.dirtyList (Nat.le_refl (min size (f.length - pos))) (by omega)
  refine ⟨m', ?_, hhost ▸ h.host, h', hd', hhost ▸ h.size⟩
  simp only [genericFileRead, h.size, if_neg hpos, hclip, hrun, nil_append, ByteFile.read_eq]

/-! ### Writing -/

/-- One page of `generic_file_write`. -/
theorem fileWritePage_spec (hI : I m.host) (h : Shows back m B) (hd : m.DirtyList [])
    (buf : List UInt8) (pos : Nat) (hpos : pos < lim * pageSize) :
    ∃ m1, fileWritePage ops.toPageCacheOps m buf pos = (.ok (), m1) ∧
      (cachedPageMarkDirty m1 (pos / pageSize)).host = m.host ∧
      Shows back (cachedPageMarkDirty m1 (pos / pageSize))
        (blit B pos (min (pageSize - pos % pageSize) buf.length) (ofList buf)) ∧
      (cachedPageMarkDirty m1 (pos / pageSize)).DirtyList [] := by
  have hoff := Nat.mod_lt pos pageSize_pos
  have hsplit := Nat.div_add_mod' pos pageSize
  rw [fileWritePage]
  split
  · have hnr : min (pageSize - pos % pageSize) buf.length = pageSize := by omega
    have hblit : ∀ old : ByteMem, blit B (pos / pageSize * pageSize) pageSize
        (blit old 0 pageSize (ofList buf)) = blit B pos pageSize (ofList buf) := by
      intro old
      have hstart : pos / pageSize * pageSize = pos := by omega
      rw [hstart]
      refine blit_congr fun k hk => ?_
      rw [blit_of_mem (Nat.zero_le k) (by omega), Nat.sub_zero]
    rw [hnr]
    obtain ⟨old, m1, hfind, -, hset, hold, -⟩ := findOrCreatePage_spec hs hI (pos / pageSize)
    obtain ⟨hhost, hshow, hdirty⟩ := h.store hd (pos / pageSize)
      { old with data := blit old.data 0 pageSize (ofList buf), uptodate := true } rfl hold
    rw [hblit] at hshow
    exact ⟨_, by simp only [hfind, hset], hhost, hshow, hdirty⟩
  · obtain ⟨cp, m1, hread, hhost, hp, -, hu, hpage, h1, hd1⟩ :=
      readMappingPage_spec hs hI h hd (div_lt_of_lt_mul hpos)
    generalize hnr : min (pageSize - pos % pageSize) buf.length = nr
    obtain ⟨hhost', hshow, hdirty⟩ := h1.store hd1 (pos / pageSize)
      { cp with data := blit cp.data (pos % pageSize) nr (ofList buf) } hu
      (isDirty_iff_of_some hp).symm
    rw [blit_page _ _ _ (by omega) hpage, hsplit] at hshow
    refine ⟨_, by rw [hread], hhost'.trans hhost, hshow, hdirty⟩

/-- One round of the loop of `generic_file_write`, with the update of the size. -/
theorem ShowsFile.writeChunk {m1 : PageCache σ} (h : ShowsFile ops I back m f) {bs : List UInt8}
    {pos : Nat} (hbs : bs ≠ []) (hlim : pos + bs.length < lim * pageSize) (hhost : m1.host = m.host)
    (hshow : Shows back m1 (ofList (f.write pos bs))) (hd : m1.DirtyList []) :
    ShowsFile ops I back (if pos + bs.length > ops.isize m1.host
      then { m1 with host := ops.setIsize m1.host (pos + bs.length) } else m1)
      (f.write pos bs) := by
  have hI : I m1.host := hhost ▸ h.host
  have hsize : ops.isize m1.host = f.length := hhost ▸ h.size
  have hlen := ByteFile.length_write (f := f) (p := pos) hbs
  split
  · obtain ⟨hI', hsize', hback⟩ := hs.setIsize m1.host (pos + bs.length) hI (by omega) hlim
    refine ⟨hI', hshow.setHost hback, hd.setHost _, ?_⟩
    rw [hsize', hlen]
    omega
  · refine ⟨hI, hshow, hd, ?_⟩
    omega

theorem fileWriteLoop_spec {fuel : Nat} (buf : List UInt8) (pos total : Nat)
    (h : ShowsFile ops I back m f) (hfuel : buf.length ≤ fuel)
    (hlim : pos + buf.length < lim * pageSize) :
    ∃ m', fileWriteLoop ops fuel m buf pos total = (none, total + buf.length, m') ∧
      ShowsFile ops I back m' (f.write pos buf) := by
  induction fuel generalizing m f buf pos total with
  | zero =>
    obtain rfl : buf = [] := eq_nil_of_length_eq_zero (by omega)
    exact ⟨m, rfl, h⟩
  | succ fuel ih =>
    by_cases hz : buf.length = 0
    · obtain rfl : buf = [] := eq_nil_of_length_eq_zero hz
      exact ⟨m, rfl, h⟩
    have hoff := Nat.mod_lt pos pageSize_pos
    obtain ⟨m1, hpage, hhost, hshow, hd⟩ :=
      fileWritePage_spec hs h.host h.shows h.dirtyList buf pos (by omega)
    rw [fileWriteLoop, if_neg hz]
    generalize hnr : min (pageSize - pos % pageSize) buf.length = nr at hshow
    have htake : (buf.take nr).length = nr := by
      rw [length_take]
      omega
    have hchunk : ofList (f.write pos (buf.take nr)) = blit (ofList f) pos nr (ofList buf) := by
      rw [ByteFile.ofList_write, htake]
      refine blit_congr fun k hk => ?_
      rw [ByteFile.ofList_take, if_pos hk]
    have hne : buf.take nr ≠ [] := by
      intro hnil
      rw [hnil, length_nil] at htake
      omega
    rw [← hchunk] at hshow
    have hnext := h.writeChunk hs hne (by omega) hhost hshow hd
    rw [htake] at hnext
    obtain ⟨m', hrun, h'⟩ := ih (buf.drop nr) (pos + nr) (total + nr) hnext
      (by rw [length_drop]; omega) (by rw [length_drop]; omega)
    refine ⟨m', ?_, ?_⟩
    · simp only [hpage, hrun, length_drop]
      congr 2
      omega
    · have happ := ByteFile.write_append f pos (buf.take nr) (buf.drop nr)
      rw [htake, take_append_drop] at happ
      rwa [happ] at h'

/-- `generic_file_write` writes the whole buffer to the file. -/
theorem genericFileWrite_spec (h : ShowsFile ops I back m f) (now : Int) (buf : List UInt8)
    (pos : Nat) (hlim : pos + buf.length < lim * pageSize) :
    ∃ m', genericFileWrite ops now m buf pos = (.ok buf.length, m') ∧
      ShowsFile ops I back m' (f.write pos buf) := by
  obtain ⟨m', hrun, h'⟩ := fileWriteLoop_spec hs buf pos 0 h le_rfl hlim
  rw [zero_add] at hrun
  simp only [genericFileWrite, hrun]
  refine ⟨_, rfl, ?_⟩
  split
  · obtain ⟨hI, hsize, hback⟩ := hs.touchMtime _ now h'.host
    exact ⟨hI, h'.shows.setHost hback, h'.dirtyList.setHost _, hsize.trans h'.size⟩
  · exact h'

end

/-! ### Write-back -/

/-- A page of the batch is cleaned. -/
theorem PageCache.DirtyList.clear {cp : CachedPage}
    (h : m.DirtyList (i :: batch)) (hd : cp.dirty = false) : (m.setPage i cp).DirtyList batch := by
  have hnodup : i ∉ batch ++ m.dirtyPages ∧ (batch ++ m.dirtyPages).Nodup :=
    nodup_cons.1 h.nodup
  refine ⟨hnodup.2, fun j => ?_⟩
  by_cases hj : j = i
  · subst hj
    rw [isDirty_setPage, hd]
    exact iff_of_false hnodup.1 Bool.false_ne_true
  have hmem : j ∈ i :: (batch ++ m.dirtyPages) ↔ m.IsDirty j := h.mem_iff j
  rw [mem_cons, or_iff_right hj] at hmem
  rw [isDirty_congr (pages_setPage_of_ne cp hj)]
  exact hmem

/-- The state after `write_page` stored its results, as one update. -/
theorem setPage_host (m : PageCache σ) (i : Nat) (cp cp' : CachedPage) (h : σ) :
    setPage { m.setPage i cp with host := h } i cp' = setPage { m with host := h } i cp' := by
  simp only [setPage, update_idem]

section

variable (hs : HostSpec ops lim I back E) (hI : I m.host) (h : Shows back m B)
  (hz : ∀ a, ops.isize m.host ≤ a → B a = 0)

include hs hI h hz

/-- `writeback_one` keeps the view; the page is clean afterwards or still dirty. -/
theorem writebackOne_spec (hd : m.DirtyList (i :: batch)) :
    ∃ res m', writebackOne ops.toPageCacheOps m i = (res, m') ∧ I m'.host ∧
      ops.isize m'.host = ops.isize m.host ∧ Shows back m' B ∧ m'.DirtyList batch ∧
      (∀ j, m.pages j = none → m'.pages j = none) ∧
      ((res = .ok () ∧ m'.dirtyPages = m.dirtyPages) ∨ ∃ e, res = .error e ∧ E e) := by
  obtain ⟨cp, hp, -⟩ : m.IsDirty i := (hd.mem_iff i).1 (by simp)
  have hne : ∀ j, m.pages j = none → j ≠ i := by
    rintro j hj rfl
    rw [hp] at hj
    cases hj
  cases hu : cp.uptodate with
  | false =>
    refine ⟨.ok (), m.setPage i { cp with dirty := false }, ?_, hI, rfl, h.congr ?_ rfl,
      hd.clear rfl, fun j hj => (pages_setPage_of_ne _ (hne j hj)).trans hj, .inl ⟨rfl, rfl⟩⟩
    · simp only [writebackOne, hp, hu, Bool.false_eq_true, if_false]
    funext j
    by_cases hj : j = i
    · subst hj
      rw [lines_of_stale hp hu]
      exact lines_of_stale (pages_setPage m j _) hu
    · exact lines_congr (pages_setPage_of_ne _ hj)
  | true =>
    have hpage := h.page_of_uptodate hp hu
    have hzero : ∀ k < pageSize, ops.isize m.host ≤ i * pageSize + k → cp.data k = 0 := by
      intro k hk hle
      have hbyte := page_eq_iff.1 hpage k hk
      rw [zero_mul, zero_add] at hbyte
      rw [hbyte, hz _ hle]
    obtain ⟨res, data, h', hwrite, hI', hsize, hdata, hother, hres⟩ :=
      hs.writePage m.host i cp.data hI hzero
    have hlist : (setPage { m with host := h' } i
        { cp with data := data, dirty := false }).DirtyList batch :=
      (hd.setHost h').clear rfl
    -- either way the page keeps its bytes, so the line keeps its value
    have hsync (m' : PageCache σ) (d : Bool) (hhost : m'.host = h')
        (hpages : m'.pages = update m.pages i (some { cp with data := data, dirty := d }))
        (hclean : d = false → page (back h') i = page cp.data 0) : Shows back m' B := by
      have hlines := lines_update { cp with data := data, dirty := d } hu hpages
      rw [hdata] at hlines
      obtain ⟨hc, hv⟩ := h.coherent.sync (d := d) (lines_of_uptodate hp hu) hother
        fun hf => (hclean hf).symm
      refine ⟨?_, ?_⟩
      · rw [hlines, hhost]
        exact hc
      · rw [hlines, hhost, ← h.view]
        exact hv
    rcases hres with ⟨rfl, hback⟩ | ⟨e, rfl, he⟩
    · refine ⟨.ok (), _, ?_, ?_, ?_, hsync _ false ?_ ?_ fun _ => hback, hlist,
        fun j hj => (pages_setPage_of_ne _ (hne j hj)).trans hj, .inl ⟨rfl, rfl⟩⟩
      · simp only [writebackOne, hp, hu, if_true, host_setPage, hwrite, setPage_host]
      · exact hI'
      · exact hsize
      · rfl
      · rfl
    obtain ⟨hhost, hpages, hmark⟩ := cachedPageMarkDirty_spec hlist (pages_setPage _ i _)
    refine ⟨.error e, cachedPageMarkDirty (setPage { m with host := h' } i
      { cp with data := data, dirty := false }) i, ?_, ?_, ?_, hsync _ true hhost ?_ ?_, hmark,
      fun j hj => ?_, .inr ⟨e, rfl, he⟩⟩
    · simp only [writebackOne, hp, hu, if_true, host_setPage, hwrite, setPage_host]
    · rw [hhost]
      exact hI'
    · rw [hhost]
      exact hsize
    · rw [hpages]
      exact update_idem _ _ _
    · intro hf
      cases hf
    · rw [hpages, update_of_ne (hne j hj)]
      exact (pages_setPage_of_ne _ (hne j hj)).trans hj

theorem flushBatch_spec {first : Except Errno Unit} (hd : m.DirtyList batch)
    (hfirst : (first = .ok () ∧ m.dirtyPages = []) ∨ ∃ e, first = .error e ∧ E e) :
    ∃ res m', flushBatch ops.toPageCacheOps batch m first = (res, m') ∧ I m'.host ∧
      ops.isize m'.host = ops.isize m.host ∧ Shows back m' B ∧ m'.DirtyList [] ∧
      (∀ j, m.pages j = none → m'.pages j = none) ∧
      ((res = .ok () ∧ m'.dirtyPages = []) ∨ ∃ e, res = .error e ∧ E e) := by
  induction batch generalizing m first with
  | nil => exact ⟨first, m, rfl, hI, rfl, h, hd, fun _ => id, hfirst⟩
  | cons i batch ih =>
    obtain ⟨r, m1, hone, hI1, hsize1, h1, hd1, hnone1, hr⟩ := writebackOne_spec hs hI h hz hd
    have hz1 : ∀ a, ops.isize m1.host ≤ a → B a = 0 := by
      rw [hsize1]
      exact hz
    -- the first error is kept
    obtain ⟨next, hstep, hnext⟩ : ∃ next, flushBatch ops.toPageCacheOps (i :: batch) m first =
        flushBatch ops.toPageCacheOps batch m1 next ∧
          ((next = .ok () ∧ m1.dirtyPages = []) ∨ ∃ e, next = .error e ∧ E e) := by
      rcases hfirst with ⟨rfl, hnil⟩ | ⟨e, rfl, he⟩
      · refine ⟨r, by simp only [flushBatch, hone], hr.imp (fun h => ?_) id⟩
        exact ⟨h.1, h.2.trans hnil⟩
      · exact ⟨.error e, by simp only [flushBatch, hone], .inr ⟨e, rfl, he⟩⟩
    obtain ⟨res, m', hrun, hI', hsize', h', hd', hnone', hres⟩ := ih hI1 h1 hz1 hd1 hnext
    exact ⟨res, m', hstep.trans hrun, hI', hsize'.trans hsize1, h', hd',
      fun j hj => hnone' j (hnone1 j hj), hres⟩

/-- `page_cache_flush` keeps the view. If it succeeds no page is dirty. -/
theorem pageCacheFlush_spec (hd : m.DirtyList []) :
    ∃ res m', pageCacheFlush ops.toPageCacheOps m = (res, m') ∧ I m'.host ∧
      ops.isize m'.host = ops.isize m.host ∧ Shows back m' B ∧ m'.DirtyList [] ∧
      (∀ j, m.pages j = none → m'.pages j = none) ∧
      ((res = .ok () ∧ m'.dirtyPages = []) ∨ ∃ e, res = .error e ∧ E e) := by
  have hall : ∀ i, inFlushRange 0 (-1) i = true := by
    intro i
    simp [inFlushRange]
  have hbatch : m.dirtyPages.filter (inFlushRange 0 (-1)) = m.dirtyPages :=
    filter_eq_self.2 fun i _ => hall i
  have hrest : m.dirtyPages.filter (fun i => !inFlushRange 0 (-1) i) = [] :=
    filter_eq_nil_iff.2 fun i _ => by simp [hall]
  have hstart : PageCache.DirtyList { m with dirtyPages := [] } m.dirtyPages := by
    refine ⟨?_, fun i => ?_⟩
    · rw [append_nil]
      exact hd.nodup
    · rw [append_nil]
      exact hd.mem_iff i
  obtain ⟨res, m', hrun, h'⟩ :=
    flushBatch_spec hs (m := { m with dirtyPages := [] }) hI (h.congr rfl rfl) hz hstart
      (.inl ⟨rfl, rfl⟩)
  refine ⟨res, m', ?_, h'⟩
  rw [pageCacheFlush, pageCacheFlushRange, hbatch, hrest, hrun]

end

/-! ### Truncation -/

/-- The view after `truncate_inode_pages`: the bytes up to the new end, zeros up to the next page,
and what the host has past it. -/
def cutView (B back : ByteMem) (n : Nat) : ByteMem := fun a =>
  if a < n then B a else if a / pageSize < (n + pageSize - 1) / pageSize then 0 else back a

/-- The bytes of `B` on the first `k` pages. -/
def firstPages (B back : ByteMem) (k : Nat) : ByteMem := fun a =>
  if a / pageSize < k then B a else back a

/-- Detached pages show the bytes of the host. -/
theorem Shows.detachFrom (h : Shows back m B) (hd : m.DirtyList []) (k : Nat) :
    Shows back (m.detachFrom k) (firstPages B (back m.host) k) ∧ (m.detachFrom k).DirtyList [] := by
  have hin : ∀ {j}, j < k → (m.detachFrom k).pages j = m.pages j := fun hj => if_pos hj
  have hout : ∀ {j}, ¬ j < k → (m.detachFrom k).pages j = none := fun hj => if_neg hj
  have hbytes : ∀ j, page (firstPages B (back m.host) k) j =
      if j < k then page B j else page (back m.host) j := by
    intro j
    split
    · rename_i hj
      exact page_congr fun a ha => if_pos (ha ▸ hj)
    · rename_i hj
      exact page_congr fun a ha => if_neg (ha ▸ hj)
  refine ⟨⟨?_, ?_⟩, ?_, ?_⟩
  · refine h.coherent.mono fun j l hl => ?_
    by_cases hj : j < k
    · rwa [lines_congr (hin hj)] at hl
    · rw [lines_of_none (hout hj)] at hl
      cases hl
  · funext j
    rw [hbytes j]
    split
    · next hj =>
      rw [← h.view, WriteBack.view, WriteBack.view, lines_congr (hin hj)]
      rfl
    · next hj => exact WriteBack.view_of_none _ (lines_of_none (hout hj))
  · exact hd.nodup.filter _
  · intro j
    show j ∈ m.dirtyPages.filter _ ↔ _
    have hmem : j ∈ m.dirtyPages ↔ m.IsDirty j := hd.mem_iff j
    rw [mem_filter, decide_eq_true_iff]
    by_cases hj : j < k
    · rw [isDirty_congr (hin hj), hmem]
      exact and_iff_left hj
    · exact iff_of_false (fun hc => hj hc.2) (not_isDirty_of_none (hout hj))

/-- `truncate_inode_pages` cuts the view and leaves no page past the new end. -/
theorem truncateInodePages_spec (hs : HostSpec ops lim I back E) (hI : I m.host)
    (h : Shows back m B) (hd : m.DirtyList []) (n : Nat) (hn : n < lim * pageSize) :
    ∃ m', truncateInodePages ops.toPageCacheOps m n = (.ok (), m') ∧ m'.host = m.host ∧
      Shows back m' (cutView B (back m.host) n) ∧ m'.DirtyList [] ∧
      ∀ j, (n + pageSize - 1) / pageSize ≤ j → m'.pages j = none := by
  unfold cutView
  generalize hk : (n + pageSize - 1) / pageSize = k
  obtain ⟨h1, hd1⟩ := h.detachFrom hd k
  have hnone : ∀ j, k ≤ j → (m.detachFrom k).pages j = none := fun j hj => if_neg (not_lt.2 hj)
  by_cases hoff : n % pageSize = 0
  · refine ⟨m.detachFrom k, ?_, rfl, ?_, hd1, hnone⟩
    · simp only [truncateInodePages, Int.toNat_natCast, hoff, if_true, hk]
    convert h1 using 1
    funext a
    have hiff : a / pageSize < k ↔ a < n := by
      unfold pageSize at hoff hk ⊢
      omega
    by_cases ha : a < n
    · rw [firstPages, if_pos ha, if_pos (hiff.2 ha)]
    · rw [firstPages, if_neg ha, if_neg (hiff.not.2 ha), if_neg (hiff.not.2 ha)]
  have hlt := Nat.mod_lt n pageSize_pos
  have hsplit := Nat.div_add_mod' n pageSize
  obtain rfl : k = n / pageSize + 1 := by
    unfold pageSize at hoff hk ⊢
    omega
  obtain ⟨cp, m1, hread, hhost, hp, hrest, hu, hpage, h2, hd2⟩ :=
    readMappingPage_spec hs (m := m.detachFrom (n / pageSize + 1)) hI h1 hd1 (div_lt_of_lt_mul hn)
  obtain ⟨hhost', hshow, hdirty⟩ := h2.store hd2 (n / pageSize)
    { cp with data := fill cp.data (n % pageSize) (pageSize - n % pageSize) 0 } hu
    (isDirty_iff_of_some hp).symm
  refine ⟨_, ?_, hhost'.trans hhost, ?_, hdirty, fun j hj => ?_⟩
  · simp only [truncateInodePages, Int.toNat_natCast, if_neg hoff, hk, hread]
  · have hcopy := blit_page (n % pageSize) (pageSize - n % pageSize) (fun _ => 0) (by omega) hpage
    rw [hsplit] at hcopy
    convert hshow using 1
    refine Eq.trans ?_ hcopy.symm
    funext a
    by_cases ha : a < n
    · rw [if_pos ha, blit_of_lt ha, firstPages, if_pos]
      have := Nat.div_le_div_right (c := pageSize) (le_of_lt ha)
      omega
    have hiff : a / pageSize < n / pageSize + 1 ↔ a < n + (pageSize - n % pageSize) := by
      unfold pageSize at ha ⊢
      omega
    rw [if_neg ha]
    by_cases hc : a < n + (pageSize - n % pageSize)
    · rw [if_pos (hiff.2 hc), blit_of_mem (by omega) hc]
    · rw [if_neg (hiff.not.2 hc), blit_of_ge (by omega), firstPages, if_neg (hiff.not.2 hc)]
  · have hji : j ≠ n / pageSize := by omega
    rw [pages_markDirty_of_ne hji, pages_setPage_of_ne _ hji, hrest j hji]
    exact hnone j hj

end Operations

end BrkKernel.Mm
