import BrkKernel.Mm.PageCache

/-!
# Reading up to the end of a file in 64-bit arithmetic

`Mm.genericFileRead` counts positions and lengths in natural numbers. Here `generic_file_read` of
`mm/pagecache.c` is written in the types of the source: the position, the sum that is compared with
the size of the file and the count of the bytes are signed 64-bit numbers.

The two agree while the sum of position and length is below `2 ^ 63` (`readLoop_eq`). A read of a
range that starts in the file is cut at its end exactly in that case (`genericFileRead_eof_iff`).
-/

set_option autoImplicit false

namespace BrkKernel.Mm

open Lib.ByteMem

/-- Conversion to a signed 64-bit value. -/
def s64 (x : Int) : Int := (x + 2 ^ 63) % 2 ^ 64 - 2 ^ 63

/-- The variables of `generic_file_read` that outlive a turn of its loop: the mapping, the bytes in
the buffer, `*pos` and `total`. -/
structure ReadState (σ : Type) where
  cache : PageCache σ
  copied : List UInt8
  pos : Int
  total : Int

section Model

variable {σ : Type}

/-- The loop of `generic_file_read` with `size` bytes to go. The fuel bounds the number of pages. -/
def readLoop (ops : PageCacheOps σ) : Nat → Nat → ReadState σ → Option Errno × ReadState σ
  | 0, _, st => (none, st)
  | fuel + 1, size, st =>
    if size = 0 then (none, st)
    else
      let index := (st.pos / pageSize % 2 ^ 64).toNat
      let off := (st.pos % pageSize).toNat
      let nr := min (pageSize - off) size
      match readMappingPage ops st.cache index with
      | (.error e, m) => (some e, { st with cache := m })
      | (.ok cp, m) =>
        readLoop ops fuel (size - nr)
          ⟨m, st.copied ++ slice cp.data off nr, s64 (st.pos + nr), s64 (st.total + nr)⟩

/-- `generic_file_read` with a `size_t` and a `loff_t`. -/
def genericFileRead64 (ops : InodeOps σ) (m : PageCache σ) (size : Nat) (pos : Int) :
    Except Errno Int × ReadState σ :=
  let isize : Int := ops.isize m.host
  if isize ≤ pos then (.ok 0, ⟨m, [], pos, 0⟩)
  else
    let size := if isize < s64 (pos + s64 size) then ((isize - pos) % 2 ^ 64).toNat else size
    let r := readLoop ops.toPageCacheOps size size ⟨m, [], pos, 0⟩
    (if 0 < r.2.total then .ok r.2.total else r.1.elim (.ok 0) .error, r.2)

end Model

section Read

variable {σ : Type} {ops : PageCacheOps σ} {fuel size pos : Nat} {x : Int}

theorem s64_s64_add (y : Int) : s64 (s64 x + y) = s64 (x + y) := by
  unfold s64
  omega

theorem s64_s64 (x : Int) : s64 (s64 x) = s64 x := by
  unfold s64
  omega

theorem s64_of_lt (hx : 0 ≤ x) (hlt : x < 2 ^ 63) : s64 x = x := by
  unfold s64
  omega

/-- No page read fails, for want of memory or of the device. -/
def NoReadFails (ops : PageCacheOps σ) : Prop :=
  ∀ m index, ∃ cp m', readMappingPage ops m index = (.ok cp, m')

/-- `st` after `n` more bytes were copied. -/
def ReadState.Copied (st : ReadState σ) (n : Nat) (st' : ReadState σ) : Prop :=
  st'.copied.length = st.copied.length + n ∧ st'.pos = s64 (st.pos + n) ∧
    st'.total = s64 (st.total + n)

/-- The loop copies, counts and skips some of the bytes that it is asked for, and all of them
unless a page read fails. -/
theorem readLoop_spec (ops : PageCacheOps σ) (size : Nat) (st : ReadState σ) (hfuel : size ≤ fuel)
    (hpos : s64 st.pos = st.pos) (htotal : s64 st.total = st.total) :
    ∃ n ≤ size, st.Copied n (readLoop ops fuel size st).2 ∧
      (NoReadFails ops → (readLoop ops fuel size st).1 = none ∧ n = size) := by
  have hstop (m : PageCache σ) : st.Copied 0 { st with cache := m } := by
    simp [ReadState.Copied, hpos, htotal]
  induction fuel generalizing size st with
  | zero => exact ⟨0, Nat.zero_le _, hstop st.cache, fun _ => ⟨rfl, by omega⟩⟩
  | succ fuel ih =>
    simp only [readLoop]
    split
    next hsize => exact ⟨0, Nat.zero_le _, hstop st.cache, fun _ => ⟨rfl, hsize.symm⟩⟩
    split
    next e m hread =>
      refine ⟨0, Nat.zero_le _, hstop m, fun hops => ?_⟩
      obtain ⟨cp, m', hok⟩ := hops st.cache (st.pos / pageSize % 2 ^ 64).toNat
      cases hread.symm.trans hok
    next cp m hread =>
      have hoff : (st.pos % (pageSize : Int)).toNat < pageSize := by
        unfold pageSize
        omega
      generalize hnr : min (pageSize - (st.pos % (pageSize : Int)).toNat) size = nr
      obtain ⟨n, hn, ⟨hlen, hpos', htotal'⟩, hall⟩ := ih (size - nr)
        ⟨m, st.copied ++ slice cp.data (st.pos % pageSize).toNat nr, s64 (st.pos + nr),
          s64 (st.total + nr)⟩ (by omega) (s64_s64 _) (s64_s64 _)
        fun _ => by simp [ReadState.Copied, s64_s64]
      refine ⟨nr + n, by omega, ⟨?_, ?_, ?_⟩, fun hops => ⟨(hall hops).1, by
        have := (hall hops).2
        omega⟩⟩
      · rw [hlen, List.length_append, slice_length, Nat.add_assoc]
      · rw [hpos', s64_s64_add, Int.add_assoc, Nat.cast_add]
      · rw [htotal', s64_s64_add, Int.add_assoc, Nat.cast_add]

/-- Below the wrap the loop is the one over natural numbers. -/
theorem readLoop_eq {m : PageCache σ} {out : List UInt8} {total : Int}
    (hsum : pos + size < 2 ^ 63) :
    ∃ pos' total', readLoop ops fuel size ⟨m, out, pos, total⟩ =
      ((fileReadLoop ops fuel m size pos out).1, ⟨(fileReadLoop ops fuel m size pos out).2.2,
        (fileReadLoop ops fuel m size pos out).2.1, pos', total'⟩) := by
  induction fuel generalizing size pos m out total with
  | zero => exact ⟨_, _, rfl⟩
  | succ fuel ih =>
    have hindex : ((pos : Int) / pageSize % 2 ^ 64).toNat = pos / pageSize := by
      unfold pageSize
      omega
    have hoff : ((pos : Int) % pageSize).toNat = pos % pageSize := by
      omega
    simp only [readLoop, fileReadLoop, hindex, hoff]
    split
    · exact ⟨_, _, rfl⟩
    rcases readMappingPage ops m (pos / pageSize) with ⟨e | cp, m'⟩
    · exact ⟨_, _, rfl⟩
    · rw [← Nat.cast_add, s64_of_lt (Int.natCast_nonneg _) (by omega)]
      exact ih (by omega)

end Read

/-! ## The end of the file -/

section Eof

variable {σ : Type} {ops : InodeOps σ} {m : PageCache σ} {size pos : Nat}

/-- The bytes from `pos` to the end of the file, at most `size` of them, are copied, counted and
skipped. -/
def ReadsToEof (isize size pos : Nat) (r : Except Errno Int × ReadState σ) : Prop :=
  r.1 = .ok ((min size (isize - pos) : Nat) : Int) ∧
    r.2.copied.length = min size (isize - pos) ∧
    r.2.pos = ((pos + min size (isize - pos) : Nat) : Int)

/-- The length that the loop is given. -/
def clip (isize size pos : Nat) : Nat :=
  if pos + size < 2 ^ 63 then min size (isize - pos) else size

/-- A read that starts in the file copies, counts and skips some bytes, no more than the clipped
length and without a failing page just as many. -/
theorem genericFileRead64_spec (ops : InodeOps σ) (m : PageCache σ) (size pos : Nat)
    (hisize : ops.isize m.host < 2 ^ 63) (hlt : pos < ops.isize m.host) (hsize : size < 2 ^ 64) :
    ∃ n ≤ clip (ops.isize m.host) size pos, (genericFileRead64 ops m size pos).2.copied.length = n ∧
      (genericFileRead64 ops m size pos).2.pos = s64 (pos + n) ∧
      (NoReadFails ops.toPageCacheOps → n = clip (ops.isize m.host) size pos ∧
        (genericFileRead64 ops m size pos).1 = if 0 < s64 n then .ok (s64 n) else .ok 0) := by
  have hclip : (if (ops.isize m.host : Int) < s64 (pos + s64 size)
      then (((ops.isize m.host : Int) - pos) % 2 ^ 64).toNat else size) =
        clip (ops.isize m.host) size pos := by
    unfold clip s64
    split <;> split <;> omega
  have hstart : s64 pos = pos := s64_of_lt (Int.natCast_nonneg _) (by omega)
  have hzero : s64 0 = 0 := s64_of_lt (Int.le_refl 0) (by decide)
  obtain ⟨n, hn, ⟨hlen, hpos, htotal⟩, hall⟩ := readLoop_spec ops.toPageCacheOps
    (clip (ops.isize m.host) size pos) ⟨m, [], pos, 0⟩ le_rfl hstart hzero
  rw [List.length_nil, zero_add] at hlen
  rw [Int.zero_add] at htotal
  rw [genericFileRead64, if_neg (by omega), hclip]
  refine ⟨n, hn, hlen, hpos, fun hops => ⟨(hall hops).2, ?_⟩⟩
  simp only [htotal, (hall hops).1, Option.elim_none]

/-- `generic_file_read` without a failing page reads up to the end of the file exactly when the
signed sum of position and length does not wrap; then no byte behind the end is copied, whatever
fails. -/
theorem genericFileRead_eof_iff (hisize : ops.isize m.host < 2 ^ 63) (hsize : size < 2 ^ 64) :
    (NoReadFails ops.toPageCacheOps →
      (ReadsToEof (ops.isize m.host) size pos (genericFileRead64 ops m size pos) ↔
        ops.isize m.host ≤ pos ∨ pos + size < 2 ^ 63)) ∧
      (ops.isize m.host ≤ pos ∨ pos + size < 2 ^ 63 →
        pos + (genericFileRead64 ops m size pos).2.copied.length ≤ max pos (ops.isize m.host)) := by
  by_cases heof : ops.isize m.host ≤ pos
  · have hrun : genericFileRead64 ops m size pos = (.ok 0, ⟨m, [], pos, 0⟩) := by
      rw [genericFileRead64, if_pos (by omega)]
    rw [hrun]
    refine ⟨fun _ => iff_of_true ?_ (.inl heof), fun _ => le_max_left _ _⟩
    simp [ReadsToEof, Nat.sub_eq_zero_of_le heof]
  obtain ⟨n, hn, hlen, hpos, hall⟩ := genericFileRead64_spec ops m size pos hisize
    (Nat.lt_of_not_le heof) hsize
  rw [or_iff_right heof, ReadsToEof, hlen, hpos]
  by_cases hsum : pos + size < 2 ^ 63
  · rw [clip, if_pos hsum] at hn hall
    refine ⟨fun hops => iff_of_true ?_ hsum, fun _ => by omega⟩
    obtain ⟨rfl, hret⟩ := hall hops
    rw [hret, s64_of_lt (Int.natCast_nonneg _) (by omega), s64_of_lt (by omega) (by omega)]
    refine ⟨?_, rfl, by omega⟩
    split
    · rfl
    · congr 1
      omega
  · rw [clip, if_neg hsum] at hall
    refine ⟨fun hops => iff_of_false (fun hread => ?_) hsum, fun h => absurd h hsum⟩
    have hn := (hall hops).1
    omega

end Eof

/-! ## A file of one byte -/

/-- A host with memory and a device that do not fail, and a file of one byte. -/
def oneByteHost : InodeOps Unit where
  alloc _ := (true, ())
  readPage _ _ data := (.ok (), data, ())
  writePage _ _ data := (.ok (), data, ())
  isize _ := 1
  setIsize _ _ := ()
  touchMtime _ _ := ()

theorem oneByteHost_reads : NoReadFails oneByteHost.toPageCacheOps := by
  intro m index
  unfold readMappingPage findOrCreatePage cachedPageAlloc
  cases m.pages index with
  | none => exact ⟨_, _, rfl⟩
  | some cp =>
    cases hcp : cp.uptodate with
    | false | true => exact ⟨_, _, by simp only [hcp]; rfl⟩

/-- A read of a page at the start returns the one byte. -/
theorem genericFileRead_eof_page :
    ReadsToEof 1 4096 0 (genericFileRead64 oneByteHost (pageCacheCreate ()) 4096 (0 : Nat)) :=
  ((genericFileRead_eof_iff (by decide) (by decide)).1 oneByteHost_reads).2 (.inr (by decide))

/-- A read of `2 ^ 63` bytes at the start copies `2 ^ 63` bytes. -/
theorem genericFileRead_past_eof : oneByteHost.isize () = 1 ∧
      (genericFileRead64 oneByteHost (pageCacheCreate ()) (2 ^ 63) (0 : Nat)).2.copied.length =
        2 ^ 63 := by
  obtain ⟨n, -, hlen, -, hall⟩ := genericFileRead64_spec oneByteHost (pageCacheCreate ()) (2 ^ 63) 0
    (by decide) (by decide) (by decide)
  exact ⟨rfl, hlen.trans (hall oneByteHost_reads).1⟩

end BrkKernel.Mm
