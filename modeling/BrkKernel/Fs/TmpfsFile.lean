import BrkKernel.Fs.Tmpfs

/-!
# tmpfs files and byte arrays

`File.Shows` relates a regular file of tmpfs to an abstract byte array. The bytes of the chain are
one memory, `chainMem`, that is zero where there is no page; every function is described by its
effect on it.

A read is right for every buffer exactly when it stays inside one page that exists (`ReadOk`), and a
write or a larger size keeps the relation when no byte left in a page past the end of the file
becomes part of the file. Along every run whose calls meet these conditions the file shows the array
(`tmpfsFile_refines`).
-/

set_option autoImplicit false

namespace BrkKernel.Tmpfs

open Lib Lib.ByteMem ByteFile List
open Brkfs (FsIattr sIsDir sIsReg u32OfInt nsPerSec)

/-- Every call of the allocator returns a page. -/
def PageSource.Plenty (ps : PageSource) : Prop := ∀ n, (ps.page n).isSome

/-- The bytes of a chain, followed by zeros. -/
def chainMem (chain : List ByteMem) : ByteMem :=
  fun a => chain.getD (a / pageSize) (fun _ => 0) (a % pageSize)

/-! ## The memory of a chain -/

section Chain

variable {ps : PageSource} {chain : List ByteMem} {pg src : ByteMem} {a i n start : Nat}

theorem chainMem_append (chain : List ByteMem) (pg : ByteMem) (a : Nat) :
    chainMem (chain ++ [pg]) a =
      if a / pageSize = chain.length then pg (a % pageSize) else chainMem chain a := by
  rw [chainMem, chainMem]
  by_cases hlt : a / pageSize < chain.length
  · rw [if_neg (Nat.ne_of_lt hlt), getD_append _ _ _ _ hlt]
  rw [getD_append_right _ _ _ _ (Nat.not_lt.1 hlt)]
  split
  · next heq => rw [heq, Nat.sub_self, getD_cons_zero]
  · next hne =>
      rw [getD_eq_default _ _ (by rw [length_singleton]; omega),
        getD_eq_default _ _ (Nat.not_lt.1 hlt)]

/-- A zeroed page behind the chain does not change the bytes. -/
theorem chainMem_append_zero (chain : List ByteMem) (pg : ByteMem) :
    chainMem (chain ++ [fill pg 0 pageSize 0]) = chainMem chain := by
  funext a
  rw [chainMem_append]
  split
  · next heq =>
      have hlt := Nat.mod_lt a pageSize_pos
      rw [fill_of_mem (Nat.zero_le _) (by omega), chainMem, heq,
        getD_eq_default _ _ (Nat.le_refl _)]
  · rfl

theorem chainMem_of_length_le (h : chain.length ≤ a / pageSize) : chainMem chain a = 0 := by
  rw [chainMem, getD_eq_default _ _ h]

/-- A copy into page `i` is a copy into the memory of the chain. -/
theorem chainMem_modify (hi : i < chain.length) (hsize : start + n ≤ pageSize) :
    chainMem (chain.modify i fun data => blit data start n src) =
      blit (chainMem chain) (i * pageSize + start) n src := by
  have hp : pageSize = 4096 := rfl
  funext a
  rw [chainMem, getD_eq_getElem?_getD, getElem?_modify]
  by_cases hpage : i = a / pageSize
  · simp only [if_pos hpage]
    rw [← hpage, getElem?_eq_getElem hi]
    show blit chain[i] start n src (a % pageSize) = _
    have hmem : chainMem chain a = chain[i] (a % pageSize) := by
      rw [chainMem, ← hpage, getD_eq_getElem _ _ hi]
    have ha : a = i * pageSize + a % pageSize := by
      rw [hpage]
      exact (Nat.div_add_mod' a pageSize).symm
    by_cases hin : start ≤ a % pageSize ∧ a % pageSize < start + n
    · rw [blit_of_mem hin.1 hin.2, blit_of_mem (by omega) (by omega)]
      congr 1
      omega
    · rw [blit_of_disjoint (by omega), blit_of_disjoint (by omega), hmem]
  · have hout : a < i * pageSize + start ∨ i * pageSize + start + n ≤ a := by
      rw [hp] at hpage hsize ⊢
      omega
    simp only [if_neg hpage, id_map']
    rw [blit_of_disjoint hout, chainMem, getD_eq_getElem?_getD]

/-- The bytes of a chain inside page `i`. -/
theorem slice_chainMem (hi : i < chain.length) (hin : start + n ≤ pageSize) :
    slice (chainMem chain) (i * pageSize + start) n = slice chain[i] start n := by
  refine slice_congr fun k hk => ?_
  have hlt : start + k < pageSize := by omega
  rw [chainMem, add_assoc, mul_comm, Nat.mul_add_div pageSize_pos, Nat.mul_add_mod,
    Nat.div_eq_of_lt hlt, Nat.mod_eq_of_lt hlt, add_zero, getD_eq_getElem _ _ hi]

theorem chainMem_take (chain : List ByteMem) (k a : Nat) :
    chainMem (chain.take k) a = if a / pageSize < k then chainMem chain a else 0 := by
  rw [chainMem, getD_eq_getElem?_getD, getElem?_take]
  split
  · rw [chainMem, getD_eq_getElem?_getD]
  · rfl

theorem pageAlloc_eq (h : ps.Plenty) : ∃ pg ps1, pageAlloc ps = (some pg, ps1) ∧ ps1.Plenty := by
  obtain ⟨pg, hpg⟩ := Option.isSome_iff_exists.1 (h ps.next)
  exact ⟨pg, ⟨ps.page, ps.next + 1⟩, by rw [pageAlloc, hpg], h⟩

theorem pageZalloc_eq (h : ps.Plenty) :
    ∃ pg ps1, pageZalloc ps = (some (fill pg 0 pageSize 0), ps1) ∧ ps1.Plenty := by
  obtain ⟨pg, hpg⟩ := Option.isSome_iff_exists.1 (h ps.next)
  exact ⟨pg, ⟨ps.page, ps.next + 1⟩, by rw [pageZalloc, hpg]; rfl, h⟩

/-- The walk to a page adds zeroed pages up to it. -/
theorem dataPageLoop_spec (k : Nat) (hps : ps.Plenty) (hi : i < chain.length) :
    ∃ chain' ps', dataPageLoop k ps chain i = (some (i + k), chain', ps') ∧ ps'.Plenty ∧
      chainMem chain' = chainMem chain ∧ chain'.length = max chain.length (i + k + 1) := by
  induction k generalizing ps chain i with
  | zero => exact ⟨chain, ps, rfl, hps, rfl, by omega⟩
  | succ k ih =>
    rw [dataPageLoop]
    split
    · next hnext =>
        obtain ⟨chain', ps', hrun, hps', hmem, hlen⟩ := ih hps hnext
        exact ⟨chain', ps', by rw [hrun]; congr 2; omega, hps', hmem, by omega⟩
    next hnext =>
      obtain ⟨pg, ps1, hpg, hps1⟩ := pageZalloc_eq hps
      have hlen1 : (chain ++ [fill pg 0 pageSize 0]).length = chain.length + 1 := by
        rw [length_append, length_singleton]
      have hi1 : i + 1 < (chain ++ [fill pg 0 pageSize 0]).length := by omega
      obtain ⟨chain', ps', hrun, hps', hmem, hlen⟩ := ih hps1 hi1
      refine ⟨chain', ps', ?_, hps', hmem.trans (chainMem_append_zero chain pg), by omega⟩
      rw [hpg]
      simp only [hrun]
      congr 2
      omega

theorem tmpfsInodeDataPage_spec (hps : ps.Plenty) (chain : List ByteMem) (pos : Nat) :
    ∃ chain' ps', tmpfsInodeDataPage ps chain pos = (some (pos / pageSize), chain', ps') ∧
      ps'.Plenty ∧ chainMem chain' = chainMem chain ∧
        chain'.length = max chain.length (pos / pageSize + 1) := by
  rw [tmpfsInodeDataPage]
  split
  · next hempty =>
      obtain ⟨pg, ps1, hpg, hps1⟩ := pageZalloc_eq hps
      obtain ⟨chain', ps', hrun, hps', hmem, hlen⟩ :=
        dataPageLoop_spec (pos / pageSize) hps1
          (show 0 < [fill pg 0 pageSize 0].length by rw [length_singleton]; omega)
      have hnil : chain = [] := eq_nil_of_length_eq_zero hempty
      refine ⟨chain', ps', ?_, hps', ?_, ?_⟩
      · rw [hpg]
        simp only [hrun, zero_add]
      · rw [hmem, hnil]
        exact chainMem_append_zero [] pg
      · rw [hlen, hempty, length_singleton, zero_add, Nat.zero_max]
        exact max_eq_right (Nat.le_add_left 1 _)
  · next hne =>
      obtain ⟨chain', ps', hrun, hps', hmem, hlen⟩ :=
        dataPageLoop_spec (pos / pageSize) hps (pos_of_ne_zero hne)
      rw [zero_add] at hrun hlen
      exact ⟨chain', ps', hrun, hps', hmem, hlen⟩

end Chain

/-! ## Writes -/

section Write

variable {ps : PageSource} {chain : List ByteMem} {buf : List UInt8} {pos : Nat}

theorem window_ofList (buf : List UInt8) (n : Nat) :
    window (ofList buf) n = ofList (buf.drop n) := by
  funext i
  rw [window_apply, ofList_drop]

/-- The page that holds the last byte of a write of `n` bytes at `off`. -/
def lastPage (off n : Nat) : Nat := (off + n - 1) / pageSize

/-- The loop copies the buffer. The bytes it does not decide are those behind the last byte written
in a page it appended. -/
theorem writeLoop_spec {fuel i off : Nat} (hps : ps.Plenty) (hi : i = off / pageSize)
    (hlt : i < chain.length) (hfuel : buf.length ≤ fuel) :
    ∃ chain' ps', writeLoop fuel ps chain i buf off = ⟨none, chain', ps', 0, off + buf.length⟩ ∧
      ps'.Plenty ∧ ∀ a, a < off + buf.length ∨ a / pageSize < chain.length ∨
        lastPage off buf.length < a / pageSize →
          chainMem chain' a = blit (chainMem chain) off buf.length (ofList buf) a := by
  induction fuel generalizing ps chain i buf off with
  | zero =>
    have h0 : buf.length = 0 := by omega
    exact ⟨chain, ps, by rw [writeLoop, h0]; rfl, hps, fun a _ => by rw [h0, blit_zero]⟩
  | succ fuel ih =>
    rw [writeLoop]
    by_cases h0 : buf.length = 0
    · exact ⟨chain, ps, by rw [h0]; rfl, hps, fun a _ => by rw [h0, blit_zero]⟩
    rw [if_neg h0]
    have hstart := Nat.mod_lt off pageSize_pos
    have hoff : i * pageSize + off % pageSize = off := hi ▸ Nat.div_add_mod' off pageSize
    simp only
    generalize hsz : min (pageSize - off % pageSize) buf.length = size
    have hcut : chainMem (chain.modify i fun data => blit data (off % pageSize) size
        (ofList buf)) = blit (chainMem chain) off size (ofList buf) := by
      rw [chainMem_modify hlt (by omega), hoff]
    have hlen : (chain.modify i fun data => blit data (off % pageSize) size
        (ofList buf)).length = chain.length := length_modify _ _ _
    generalize (chain.modify i fun data => blit data (off % pageSize) size (ofList buf)) = chain1
      at hcut hlen
    have hrest : (buf.drop size).length = buf.length - size := length_drop
    split
    · have hall : size = buf.length := by omega
      exact ⟨chain1, ps, by rw [hall], hps, fun a _ => by rw [hcut, hall]⟩
    -- The page is full, so the next byte is the first of the next page.
    have hfull : off + size = (i + 1) * pageSize := by
      rw [add_mul]
      omega
    have hnext : i + 1 = (off + size) / pageSize := by
      rw [hfull, Nat.mul_div_cancel _ pageSize_pos]
    have hend : off + size + (buf.drop size).length = off + buf.length := by omega
    have hadj : blit (chainMem chain1) (off + size) (buf.drop size).length
        (ofList (buf.drop size)) = blit (chainMem chain) off buf.length (ofList buf) := by
      rw [hcut, ← window_ofList, blit_adjacent]
      congr 1
      omega
    split
    · next hmore =>
        obtain ⟨chain', ps', hrun, hps', hmem⟩ :=
          ih hps hnext hmore (by omega : (buf.drop size).length ≤ fuel)
        refine ⟨chain', ps', by rw [hrun, hend], hps', fun a ha => ?_⟩
        rw [hmem a (by rwa [hend, hlen, lastPage, hend]), hadj]
    next hmore =>
      obtain ⟨pg, ps1, hpg, hps1⟩ := pageAlloc_eq hps
      have hlen1 : (chain1 ++ [pg]).length = chain1.length + 1 := by
        rw [length_append, length_singleton]
      obtain ⟨chain', ps', hrun, hps', hmem⟩ :=
        ih hps1 hnext (by omega : i + 1 < (chain1 ++ [pg]).length)
          (by omega : (buf.drop size).length ≤ fuel)
      rw [hpg]
      refine ⟨chain', ps', by simp only [hrun, hend], hps', fun a ha => ?_⟩
      have hlast : (i + 1) * pageSize ≤ off + buf.length - 1 := by omega
      rw [← Nat.le_div_iff_mul_le pageSize_pos] at hlast
      rw [hmem a (by
        rw [hend, hlen1, hlen, lastPage, hend]
        exact ha.imp_right (Or.imp_left Nat.lt_succ_of_lt)), ← hadj]
      -- Outside the bytes that follow, `a` is not in the appended page.
      refine blit_apply_congr (fun _ _ => rfl) fun hout => ?_
      rw [chainMem_append, if_neg]
      intro heq
      have hlow := Nat.div_mul_le_self a pageSize
      rw [heq, show chain1.length = i + 1 by omega] at hlow
      rw [lastPage] at ha
      omega

theorem tmpfsWriteFileAt_spec (hps : ps.Plenty) (chain : List ByteMem) (buf : List UInt8)
    (pos : Nat) :
    ∃ chain' ps', tmpfsWriteFileAt ps chain buf pos = ⟨none, chain', ps', 0, pos + buf.length⟩ ∧
      ps'.Plenty ∧ ∀ a, a < pos + buf.length ∨
        a / pageSize < max chain.length (pos / pageSize + 1) ∨
        lastPage pos buf.length < a / pageSize →
          chainMem chain' a = blit (chainMem chain) pos buf.length (ofList buf) a := by
  obtain ⟨chain1, ps1, hpage, hps1, hmem1, hlen1⟩ := tmpfsInodeDataPage_spec hps chain pos
  have hlt : pos / pageSize < chain1.length := hlen1 ▸ Nat.le_max_right _ _
  obtain ⟨chain2, ps2, hrun, hps2, hmem2⟩ := writeLoop_spec hps1 rfl hlt (Nat.le_refl _)
  refine ⟨chain2, ps2, ?_, hps2, fun a ha => ?_⟩
  · rw [tmpfsWriteFileAt, hpage]
    exact hrun
  · rw [hmem2 a (hlen1 ▸ ha), hmem1]

end Write

/-! ## Reads -/

section Read

variable {iSize : Nat} (chain : List ByteMem)

/-- Behind the end of the file nothing is copied. -/
theorem readLoop_end (buf : ByteMem) (n : Nat) :
    readLoop iSize chain buf n iSize = (buf, n, iSize) := by
  induction chain with
  | nil => rfl
  | cons data next ih =>
    rw [readLoop]
    simp only [Nat.sub_self, Nat.zero_min, Nat.sub_zero, Nat.add_zero, blit_zero, ih, ite_self]

/-- Every copy goes to the start of the buffer, so the last of the bytes asked for is only written
by a copy of them all. -/
theorem readLoop_keeps {buf : ByteMem} {n off j : Nat} (hj : min n (iSize - off) ≤ j) :
    (readLoop iSize chain buf n off).1 j = buf j := by
  induction chain generalizing buf n off with
  | nil => rfl
  | cons data next ih =>
    rw [readLoop]
    generalize hsz : min (min (iSize - off) (pageSize - off % pageSize)) n = size
    have hkeep : blit buf 0 size (window data (off % pageSize)) j = buf j :=
      blit_of_disjoint (by omega)
    split
    · exact hkeep
    · rw [ih (by omega), hkeep]

end Read

/-! ## The relation with a byte array -/

/-- The file holds the bytes of `f`. -/
structure File.Shows (s : File) (f : ByteFile) : Prop where
  reg : sIsReg s.inode.mode = true
  size : s.inode.size = f.length
  iSize : s.tInode.iSize = f.length
  fits : f.length < 4294967296
  bytes : ∀ a < f.length, chainMem s.tInode.iPage a = ofList f a
  plenty : s.pages.Plenty

/-- The read of `n` bytes at `pos` into `buf` returns the bytes of `f`. -/
def File.ReadsAs (s : File) (f : ByteFile) (buf : ByteMem) (n pos : Nat) : Prop :=
  (tmpfsFileRead s buf n pos).1 = .ok (f.read pos n).length ∧
    slice (tmpfsFileRead s buf n pos).2.1 0 (f.read pos n).length = f.read pos n

/-- The read starts behind the end of the file or stays inside one page of the chain. -/
def File.ReadOk (s : File) (n pos : Nat) : Prop :=
  pos < s.tInode.iSize → pos / pageSize < s.tInode.iPage.length ∧
    min (pos + n) s.tInode.iSize ≤ (pos / pageSize + 1) * pageSize

/-- The bytes the chain holds between the end of the file and position `p` are zero. -/
def File.ZeroUpTo (s : File) (p : Nat) : Prop :=
  ∀ a, s.tInode.iSize ≤ a → a < p → chainMem s.tInode.iPage a = 0

/-- The write does not show bytes that were left in a page: the bytes before `pos` and behind the
end of the file are zero, and nothing of the file is behind a last page that the write appends
after another one. A write of nothing starts inside the file. -/
def File.WriteOk (s : File) (buf : List UInt8) (pos : Nat) : Prop :=
  (buf = [] → pos ≤ s.tInode.iSize) ∧ s.ZeroUpTo pos ∧
    (s.tInode.iPage.length ≤ lastPage pos buf.length →
      pos / pageSize < lastPage pos buf.length → s.tInode.iSize ≤ pos + buf.length)

section Shows

variable {s : File} {f : ByteFile} {now : Int} {buf : List UInt8} {n pos : Nat}

theorem u32OfInt_of_lt {n : Nat} (h : n < 4294967296) : u32OfInt n = n := by
  rw [u32OfInt]
  omega

theorem length_read (f : ByteFile) (pos n : Nat) :
    (f.read pos n).length = min n (f.length - pos) := by
  rw [ByteFile.read, length_take, length_drop]

section

variable (h : s.Shows f)

include h

/-- A read inside one page returns the bytes of the file. -/
theorem File.Shows.readsAs (hok : s.ReadOk n pos) (buf : ByteMem) : s.ReadsAs f buf n pos := by
  rw [File.ReadsAs, length_read, read_eq, tmpfsFileRead, tmpfsReadFileAt]
  by_cases hend : s.tInode.iSize ≤ pos
  · rw [if_pos hend]
    have h0 : min n (f.length - pos) = 0 := by
      rw [← h.iSize]
      omega
    rw [h0]
    exact ⟨rfl, rfl⟩
  rw [if_neg hend]
  obtain ⟨hpage, hin⟩ := hok (not_le.1 hend)
  rw [tmpfsInodeDataPageRo, drop_eq_getElem_cons hpage]
  simp only
  rw [readLoop]
  have hpos := Nat.div_add_mod' pos pageSize
  have hmul := Nat.add_one_mul (pos / pageSize) pageSize
  have hsz : min (min (s.tInode.iSize - pos) (pageSize - pos % pageSize)) n =
      min n (f.length - pos) := by
    rw [← h.iSize]
    omega
  simp only [hsz]
  have hslice : slice (blit buf 0 (min n (f.length - pos))
      (window s.tInode.iPage[pos / pageSize] (pos % pageSize))) 0 (min n (f.length - pos)) =
      slice (ofList f) pos (min n (f.length - pos)) := by
    rw [slice_blit_of_inside le_rfl le_rfl, slice_window,
      Nat.sub_zero, add_zero, ← slice_chainMem hpage (by omega), hpos]
    exact slice_congr fun i hi => h.bytes (pos + i) (by omega)
  have hcnt : n - (n - min n (f.length - pos)) = min n (f.length - pos) := by omega
  split
  · exact ⟨congrArg Except.ok hcnt, hslice⟩
  have hlast : pos + min n (f.length - pos) = s.tInode.iSize := by
    omega
  rw [hlast, readLoop_end]
  exact ⟨congrArg Except.ok hcnt, hslice⟩

/-- A read of the whole file that does not stay inside one page leaves the last byte it returns as
it was in the buffer. -/
theorem File.Shows.readOk (hread : ∀ buf, s.ReadsAs f buf n pos) : s.ReadOk n pos := by
  intro hlt
  have hlen : (f.read pos n).length = min n (s.tInode.iSize - pos) := by
    rw [length_read, h.iSize]
  by_cases hpage : pos / pageSize < s.tInode.iPage.length
  · refine ⟨hpage, not_lt.1 fun hcross => ?_⟩
    have hpos := Nat.div_add_mod' pos pageSize
    have hmul := Nat.add_one_mul (pos / pageSize) pageSize
    have hmod := Nat.mod_lt pos pageSize_pos
    obtain ⟨m, hm⟩ : ∃ m, min n (s.tInode.iSize - pos) = m + 1 :=
      ⟨min n (s.tInode.iSize - pos) - 1, by omega⟩
    -- The byte at `m` is the one that was in the buffer before.
    have hkeep : ∀ buf : ByteMem, (tmpfsFileRead s buf n pos).2.1 m = buf m := by
      intro buf
      rw [tmpfsFileRead, tmpfsReadFileAt, if_neg (not_le.2 hlt), tmpfsInodeDataPageRo,
        drop_eq_getElem_cons hpage]
      simp only
      rw [readLoop]
      rw [if_neg (by omega), readLoop_keeps _ (by omega), blit_of_disjoint (by omega)]
    have hbyte : ∀ buf : ByteMem, (f.read pos n)[m]? = some (buf m) := by
      intro buf
      have hbuf := (hread buf).2
      rw [← hbuf, hlen, hm, getElem?_slice _ _ _ _ (Nat.lt_succ_self m), zero_add, hkeep]
    have hcontra := (hbyte fun _ => 0).symm.trans (hbyte fun _ => 1)
    exact absurd (Option.some.inj hcontra) (by decide)
  · have herr := (hread fun _ => 0).1
    rw [tmpfsFileRead, tmpfsReadFileAt, if_neg (not_le.2 hlt), tmpfsInodeDataPageRo,
      drop_of_length_le (not_lt.1 hpage)] at herr
    cases herr

theorem File.Shows.readsAs_iff : (∀ buf, s.ReadsAs f buf n pos) ↔ s.ReadOk n pos :=
  ⟨h.readOk, h.readsAs⟩

/-- A write keeps the relation when it does not show bytes left in a page. -/
theorem File.Shows.write (hfits : pos + buf.length < 4294967296)
    (hok : s.WriteOk buf pos) : (tmpfsFileWrite now s buf pos).2.2.Shows (f.write pos buf) := by
  obtain ⟨chain', ps', hrun, hps', hmem⟩ := tmpfsWriteFileAt_spec h.plenty s.tInode.iPage buf pos
  obtain ⟨hnil, hzero, hlast⟩ := hok
  have hlen : (f.write pos buf).length = max f.length (pos + buf.length) := by
    by_cases hbuf : buf = []
    · have hle := hnil hbuf
      rw [hbuf, write_nil, length_nil, add_zero]
      rw [h.iSize] at hle
      exact (max_eq_left hle).symm
    · exact length_write hbuf
  have hfit := h.fits
  have hsize : (if (pos + buf.length : Int) > s.inode.size then (pos + buf.length : Int)
      else s.inode.size) = ((f.write pos buf).length : Int) := by
    rw [h.size, hlen]
    split <;> omega
  rw [tmpfsFileWrite, hrun]
  simp only [Nat.sub_zero, hsize]
  refine ⟨h.reg, rfl, u32OfInt_of_lt (by omega), by omega, fun a ha => ?_, hps'⟩
  show chainMem chain' a = _
  -- A byte of the file is not behind the written bytes in an appended page.
  have hout : a < pos + buf.length ∨
      a / pageSize < max s.tInode.iPage.length (pos / pageSize + 1) ∨
      lastPage pos buf.length < a / pageSize := by
    by_cases hlow : a < pos + buf.length
    · exact .inl hlow
    have hbig : ¬ s.tInode.iSize ≤ pos + buf.length := by
      rw [h.iSize]
      omega
    by_cases hpage : lastPage pos buf.length < a / pageSize
    · exact .inr (.inr hpage)
    refine .inr (.inl (lt_of_le_of_lt (not_lt.1 hpage) ?_))
    by_cases hex : s.tInode.iPage.length ≤ lastPage pos buf.length
    · omega
    · omega
  rw [hmem a hout, ofList_write]
  refine blit_apply_congr (fun _ _ => rfl) fun _ => ?_
  by_cases hf : a < f.length
  · exact h.bytes a hf
  · rw [ofList_of_le (not_lt.1 hf)]
    exact hzero a (by rw [h.iSize]; omega) (by omega)

end

/-- Cutting a chain clears what is behind the new end. -/
theorem chainMem_cutChain (chain : List ByteMem) {size : Nat} (hsize : size < 4294967296)
    (a : Nat) : chainMem (cutChain chain size) a = if a < size then chainMem chain a else 0 := by
  have hp : pageSize = 4096 := rfl
  have hfree : u32 ((size + pageSize - 1) / pageSize) = (size + pageSize - 1) / pageSize :=
    u32_of_lt (by rw [hp]; omega)
  have htake : a < size → a / pageSize < (size + pageSize - 1) / pageSize := by
    rw [hp]
    omega
  rw [cutChain, hfree]
  split
  · next hpart =>
      by_cases hex : size / pageSize < (chain.take ((size + pageSize - 1) / pageSize)).length
      · have hmod := Nat.mod_lt size pageSize_pos
        have hdiv := Nat.div_add_mod' size pageSize
        simp only [fill]
        rw [chainMem_modify hex (by omega), hdiv]
        split
        · next ha => rw [blit_of_lt ha, chainMem_take, if_pos (htake ha)]
        next ha =>
        by_cases hpage : a < size + (pageSize - size % pageSize)
        · rw [blit_of_mem (not_lt.1 ha) hpage]
        · rw [blit_of_ge (not_lt.1 hpage), chainMem_take, if_neg (by rw [hp] at *; omega)]
      · rw [modify_eq_self (not_lt.1 hex), chainMem_take]
        by_cases ha : a < size
        · rw [if_pos ha, if_pos (htake ha)]
        have hshort : chain.length ≤ a / pageSize := by
          rw [length_take] at hex
          rw [hp] at *
          omega
        rw [if_neg ha, chainMem_of_length_le hshort, ite_self]
  · next hfull =>
      have hiff : a / pageSize < (size + pageSize - 1) / pageSize ↔ a < size := by
        rw [hp] at *
        omega
      rw [chainMem_take]
      simp only [hiff]

/-- `tmpfs_setattr` changes the size when the part between the old end and a larger new end is
zero. A negative size is refused. -/
theorem File.Shows.setattrSize (h : s.Shows f) {size : Int} (hfits : size < 4294967296)
    (hzero : s.ZeroUpTo size.toNat) :
    (setattrSize now s size).2.Shows (if size < 0 then f else f.resize size.toNat) := by
  rw [Tmpfs.setattrSize]
  by_cases hneg : size < 0
  · rw [if_pos hneg, if_pos hneg]
    exact h
  obtain ⟨n, rfl⟩ := Int.eq_ofNat_of_zero_le (Int.not_lt.1 hneg)
  have hn : n < 4294967296 := by omega
  rw [if_neg hneg, if_neg hneg, h.reg]
  refine ⟨h.reg, ?_, ?_, ?_, fun a ha => ?_, h.plenty⟩
  · show (n : Int) = _
    rw [length_resize, Int.toNat_natCast]
  · show u32OfInt n = _
    rw [length_resize, Int.toNat_natCast, u32OfInt_of_lt hn]
  · rw [length_resize, Int.toNat_natCast]
    exact hn
  rw [length_resize, Int.toNat_natCast] at ha
  have hres : ofList (f.resize n) a = ofList f a := by
    rw [ofList_resize]
    exact if_pos ha
  rw [Int.toNat_natCast, hres]
  show chainMem (if (n : Int) < s.tInode.iSize then cutChain s.tInode.iPage (n : Int).toNat
    else s.tInode.iPage) a = _
  rw [h.iSize, Int.toNat_natCast]
  split
  · rw [chainMem_cutChain _ hn, if_pos ha]
    exact h.bytes a (by omega)
  by_cases hf : a < f.length
  · exact h.bytes a hf
  · rw [ofList_of_le (not_lt.1 hf)]
    exact hzero a (by rw [h.iSize]; omega) ha

/-- A change of the permission bits keeps the type of the file. -/
theorem sIsReg_setMode (mode m : Nat) :
    sIsReg (mode &&& 0o170000 ||| m &&& 0o7777) = sIsReg mode := by
  rw [sIsReg, sIsReg, Nat.and_or_distrib_right, Nat.and_assoc, Nat.and_assoc,
    show 0o170000 &&& 0o170000 = 0o170000 from rfl, show 0o7777 &&& 0o170000 = 0 from rfl,
    Nat.and_zero, Nat.or_zero]

theorem sIsReg_clearIds (mode : Nat) : sIsReg (mode &&& (0xffffffff - 0o6000)) = sIsReg mode := by
  rw [sIsReg, sIsReg, Nat.and_assoc, show (0xffffffff - 0o6000) &&& 0o170000 = 0o170000 from rfl]

/-- Mode, owner and times have no part in the data. -/
theorem File.Shows.setattrRest (h : s.Shows f) (attr : FsIattr) :
    (setattrRest now s attr).Shows f := by
  unfold Tmpfs.setattrRest
  extract_lets s1 s2
  have h1 : s1.Shows f := by
    dsimp only [s1]
    split
    · exact ⟨(sIsReg_setMode ..).trans h.reg, h.size, h.iSize, h.fits, h.bytes, h.plenty⟩
    · exact h
  have h2 : s2.Shows f := by
    dsimp only [s2]
    split
    · exact ⟨(sIsReg_clearIds _).trans h1.reg, h1.size, h1.iSize, h1.fits, h1.bytes, h1.plenty⟩
    · exact h1
  split
  · exact ⟨h2.reg, h2.size, h2.iSize, h2.fits, h2.bytes, h2.plenty⟩
  · exact h2

end Shows

/-! ## Runs -/

/-- A call on a regular file. -/
inductive FileCall where
  | read (n pos : Nat)
  | write (buf : List UInt8) (pos : Nat)
  | setattr (attr : FsIattr)

/-- The file after a call at time `now`. -/
def FileCall.exec (now : Int) (s : File) : FileCall → File
  | .read _ _ => s
  | .write buf pos => (tmpfsFileWrite now s buf pos).2.2
  | .setattr attr => (tmpfsSetattr now s attr).2

/-- The array after a change of the size. A negative size is no size. -/
def resizeTo (f : ByteFile) : Option Int → ByteFile
  | none => f
  | some size => if size < 0 then f else f.resize size.toNat

/-- What a call does to the array. -/
def FileCall.effect (f : ByteFile) : FileCall → ByteFile
  | .read _ _ => f
  | .write buf pos => f.write pos buf
  | .setattr attr => resizeTo f attr.size

/-- The call stays below `2^32`. -/
def FileCall.InRange : FileCall → Prop
  | .read n pos => pos + n < 4294967296
  | .write buf pos => pos + buf.length < 4294967296
  | .setattr attr => ∀ size ∈ attr.size, size < 4294967296

/-- The condition under which a call behaves as on an array. -/
def FileCall.Ok (s : File) : FileCall → Prop
  | .read n pos => s.ReadOk n pos
  | .write buf pos => s.WriteOk buf pos
  | .setattr attr => ∀ size ∈ attr.size, s.ZeroUpTo size.toNat

/-- The file and the array take a call that meets its condition. -/
def CallStep (p p' : File × ByteFile) : Prop :=
  ∃ now c, c.InRange ∧ c.Ok p.1 ∧ p' = (FileCall.exec now p.1 c, FileCall.effect p.2 c)

theorem File.Shows.setattr {s : File} {f : ByteFile} {now : Int} (h : s.Shows f) {attr : FsIattr}
    (hfits : ∀ size ∈ attr.size, size < 4294967296)
    (hzero : ∀ size ∈ attr.size, s.ZeroUpTo size.toNat) :
    (tmpfsSetattr now s attr).2.Shows (resizeTo f attr.size) := by
  rw [tmpfsSetattr]
  cases hsize : attr.size with
  | none => exact h.setattrRest attr
  | some size =>
    have hstep : (Tmpfs.setattrSize now s size).2.Shows _ :=
      h.setattrSize (hfits size hsize) (hzero size hsize)
    dsimp only
    split
    · next hrun => rwa [hrun] at hstep
    · next hrun =>
      rw [hrun] at hstep
      exact hstep.setattrRest attr

theorem CallStep.shows {p p' : File × ByteFile} (hstep : CallStep p p') (h : p.1.Shows p.2) :
    p'.1.Shows p'.2 := by
  obtain ⟨now, c, hrange, hok, rfl⟩ := hstep
  cases c with
  | read n pos => exact h
  | write buf pos => exact h.write hrange hok
  | setattr attr => exact h.setattr hrange hok

theorem newFile_shows (now : Int) (ino : Nat) {mode : Nat} (rdev uid gid : Nat) {pages : PageSource}
    (hreg : sIsReg mode = true) (hpages : pages.Plenty) :
    (newFile now ino mode rdev uid gid pages).Shows [] :=
  ⟨hreg, rfl, rfl, by decide, fun a ha => absurd ha (Nat.not_lt_zero a), hpages⟩

/-- A regular file of tmpfs and a byte array take the same calls, each of which meets its condition.
Then the file holds the bytes of the array, and a read returns them, whatever is in the buffer,
exactly when it starts behind the end or stays inside one page of the chain. -/
theorem tmpfsFile_refines (now : Int) (ino : Nat) {mode : Nat} (rdev uid gid : Nat)
    {pages : PageSource} (hreg : sIsReg mode = true) (hpages : pages.Plenty) {s : File}
    {f : ByteFile} (hrun : Run CallStep (newFile now ino mode rdev uid gid pages, []) (s, f)) :
    s.Shows f ∧ ∀ n pos, pos + n < 4294967296 →
      ((∀ buf, s.ReadsAs f buf n pos) ↔ s.ReadOk n pos) := by
  have hshows : s.Shows f :=
    Run.invariant (P := fun p : File × ByteFile => p.1.Shows p.2) (fun _ _ => CallStep.shows) hrun
      (newFile_shows now ino rdev uid gid hreg hpages)
  exact ⟨hshows, fun n pos _ => hshows.readsAs_iff⟩

/-- An allocator whose pages are full of bytes left by others. -/
def usedPages : PageSource := ⟨fun _ => some fun _ => 255, 0⟩

/-- A new regular file. -/
def emptyFile : File := newFile 0 2 0o100644 0 0 0 usedPages

/-- The attributes that only set the size. -/
def sizeAttr (size : Int) : FsIattr := ⟨none, none, none, some size, none, none, none⟩

/-- The file and the array after a write of two bytes and a change of the size to one byte. -/
theorem tmpfsFile_refines_short :
    (FileCall.exec 0 (FileCall.exec 0 emptyFile (.write [7, 8] 0)) (.setattr (sizeAttr 1))).Shows
      [7] := by
  have hwrite : CallStep (emptyFile, []) (FileCall.exec 0 emptyFile (.write [7, 8] 0), [7, 8]) :=
    ⟨0, .write [7, 8] 0, show 0 + 2 < 4294967296 by decide,
      ⟨nofun, fun a _ ha => absurd ha (Nat.not_lt_zero a),
      fun _ _ => by decide⟩, rfl⟩
  have hcut : CallStep (FileCall.exec 0 emptyFile (.write [7, 8] 0), [7, 8])
      (FileCall.exec 0 (FileCall.exec 0 emptyFile (.write [7, 8] 0)) (.setattr (sizeAttr 1)),
        [7]) := by
    refine ⟨0, .setattr (sizeAttr 1), fun size hsize => ?_, fun size hsize a hlow hhigh => ?_, rfl⟩
    · cases hsize
      decide
    · cases hsize
      exact absurd (Nat.le_trans hlow (Nat.lt_succ_iff.1 hhigh)) (by decide)
  exact (tmpfsFile_refines 0 2 0 0 0 rfl (fun _ => rfl)
    ((Relation.ReflTransGen.single hwrite).tail hcut)).1

/-- The file after a write of one page and one byte more. -/
def twoPages : File := FileCall.exec 0 emptyFile (.write (List.replicate 4096 1 ++ [2]) 0)

/-- A read of a file that was made larger fails. A read of two pages leaves the second page at the
start of the buffer. After a larger size the file shows bytes that were left in its last page. -/
theorem tmpfsFile_diverges :
    (tmpfsFileRead (FileCall.exec 0 emptyFile (.setattr (sizeAttr 1))) (fun _ => 0) 1 0).1 =
      .error .eio ∧ ((tmpfsFileRead twoPages (fun _ => 0) 4097 0).1 = .ok 4097 ∧
      (tmpfsFileRead twoPages (fun _ => 0) 4097 0).2.1 0 = 2) ∧
    ((tmpfsFileRead (FileCall.exec 0 twoPages (.setattr (sizeAttr 4098))) (fun _ => 0) 1 4097).1 =
        .ok 1 ∧
      (tmpfsFileRead (FileCall.exec 0 twoPages (.setattr (sizeAttr 4098))) (fun _ => 0) 1 4097).2.1
        0 = 255) := by
  refine ⟨rfl, ⟨?_, ?_⟩, ?_, ?_⟩ <;> decide +kernel

end BrkKernel.Tmpfs
