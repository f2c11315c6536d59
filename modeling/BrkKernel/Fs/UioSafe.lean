import BrkKernel.Fs.Uio

/-!
# Reads and writes that stay in user space

`user_io_contained`: a call stays in user space exactly when the range is checked, by the block
device or by the vectored calls, or is empty or lies in user space anyway.
-/

set_option autoImplicit false

namespace BrkKernel.Fs

open Kern Signal List

variable {kind : FileKind} {r : IoResult} {isize k n pos size total len : Nat}
  {ret : Option (Except Errno Nat)} {killed mapped write : Bool} {p : AnonPipe} (fmode : FMode)
  (secs : List (AnonPipe × Bool)) (st : FileState)

/-! ## What is promised -/

/-- Nothing outside of user space is touched, and no byte outside is counted. -/
structure Contained (buf : BitVec 64) (r : IoResult) : Prop where
  touched : UserOnly r.touched
  counted : ∀ n, r.ret = some (.ok n) → n = 0 ∨ userRangeOk buf n = true

/-- The range is empty or lies in user space. -/
def IoVec.good (v : IoVec) : Bool := v.len == 0 || userRangeOk v.base v.len.toNat

/-- The bytes of the ranges before the first bad one. -/
def goodBytes (iov : List IoVec) : Nat := ((iov.takeWhile IoVec.good).map fun v => v.len.toNat).sum

/-- The same for a vector: what is counted is in the ranges before the first bad one. -/
structure VecContained (iov : List IoVec) (r : IoResult) : Prop where
  touched : UserOnly r.touched
  counted : ∀ n, r.ret = some (.ok n) → n ≤ goodBytes iov

/-- The calls, with what the caller passes and what the descriptor is. -/
inductive IoCall where
  | read (kind : FileKind) (buf n : BitVec 64)
  | write (kind : FileKind) (buf n : BitVec 64)
  | readv (uiov : BitVec 64) (iov : List IoVec)
  | writev (uiov : BitVec 64) (iov : List IoVec)

/-- Whatever the state of the file and the errors on the way. -/
def IoCall.Safe : IoCall → Prop
  | .read kind buf n => ∀ fmode st, st.kind = kind → Contained buf (sysRead fmode st buf n)
  | .write kind buf n => ∀ fmode st, st.kind = kind → Contained buf (sysWrite fmode st buf n)
  | .readv uiov iov => ∀ nomem fmode l, l.map Prod.fst = iov →
      VecContained iov (readvWritev false nomem fmode uiov l)
  | .writev uiov iov => ∀ nomem fmode l, l.map Prod.fst = iov →
      VecContained iov (readvWritev true nomem fmode uiov l)

/-- The files that check the range, or that move nothing at all. -/
def FileKind.checks : FileKind → Bool
  | .blkdev | .dir => true
  | .brkfs | .tmpfs | .pipe => false

/-- The condition. -/
def IoCall.Fits : IoCall → Prop
  | .read kind buf n | .write kind buf n =>
    kind.checks = true ∨ n = 0 ∨ userRangeOk buf n.toNat = true
  | .readv _ _ | .writev _ _ => True

section Within

variable {buf addr : BitVec 64} {size n : Nat} {l l' : List Store}

/-- All ranges are parts of the buffer. -/
def Within (buf : BitVec 64) (size : Nat) (l : List Store) : Prop :=
  ∀ t ∈ l, ∃ off, t.addr = buf + BitVec.ofNat 64 off ∧ off + t.len ≤ size

theorem within_nil : Within buf size [] := nofun

theorem within_cons {p : BitVec 64} (off : Nat) (hp : p = buf + BitVec.ofNat 64 off)
    (hlen : off + n ≤ size) (h : Within buf size l) : Within buf size (⟨p, n⟩ :: l) :=
  forall_mem_cons.2 ⟨⟨off, hp, hlen⟩, h⟩

/-- The rest of a buffer is a part of it. -/
theorem Within.shift (h : Within (buf + BitVec.ofNat 64 k) n l) (hk : k + n ≤ size) :
    Within buf size l := by
  intro t ht
  obtain ⟨off, haddr, hlen⟩ := h t ht
  refine ⟨k + off, ?_, by omega⟩
  rw [haddr, BitVec.add_assoc, BitVec.ofNat_add_ofNat]

theorem userRangeOk_iff : userRangeOk addr len = true ↔
    addr.toNat ≤ userSpaceSizeMax ∧ addr.toNat + len ≤ userSpaceSizeMax := by
  unfold userRangeOk
  rw [decide_eq_true_eq]
  omega

theorem Within.userOnly (h : Within buf size l) (hok : userRangeOk buf size = true) :
    UserOnly l := by
  have hmax : userSpaceSizeMax = 274877902848 := by decide
  rw [userRangeOk_iff] at hok
  intro t ht k hk
  obtain ⟨off, haddr, hlen⟩ := h t ht
  have heq : (t.addr + BitVec.ofNat 64 k).toNat = buf.toNat + off + k := by
    rw [haddr, BitVec.toNat_add, BitVec.toNat_add, BitVec.toNat_ofNat, BitVec.toNat_ofNat]
    omega
  omega

theorem userRangeOk_le (h : userRangeOk addr len = true)
    (hn : n ≤ len) : userRangeOk addr n = true := by
  rw [userRangeOk_iff] at h ⊢
  omega

/-- An operation that keeps to its buffer is contained if the buffer is. -/
theorem contained_of_within (h : Within buf size r.touched)
    (hret : ∀ n, r.ret = some (.ok n) → n ≤ size) (hok : userRangeOk buf size = true) :
    Contained buf r :=
  ⟨h.userOnly hok, fun n hn => .inr (userRangeOk_le hok (hret n hn))⟩

theorem contained_nil (hret : ∀ n, ret = some (.ok n) → n = 0) : Contained buf ⟨[], ret⟩ :=
  ⟨userOnly_nil, fun n hn => .inl (hret n hn)⟩

theorem totalOr_ok {e : Errno} (h : totalOr total e = .ok n) : n = total := by
  rcases totalOr_cases total e with ht | ⟨ht, -⟩
  · rw [ht] at h
    cases h
    rfl
  · rw [ht] at h
    cases h

/-- The operation keeps to a buffer of that size and counts no more. -/
def Bounded (buf : BitVec 64) (size : Nat) (r : IoResult) : Prop :=
  Within buf size r.touched ∧ ∀ n, r.ret = some (.ok n) → n ≤ size

/-- The same for the rest of an operation that has counted `total` bytes before. -/
def BoundedFrom (total : Nat) (buf : BitVec 64) (size : Nat) (r : IoResult) : Prop :=
  Within buf size r.touched ∧ ∀ n, r.ret = some (.ok n) → n ≤ total + size

theorem BoundedFrom.stop
    (hret : ∀ n, ret = some (.ok n) → n = total) : BoundedFrom total buf size ⟨[], ret⟩ :=
  ⟨within_nil, fun n hn => hret n hn ▸ Nat.le_add_right _ _⟩

theorem BoundedFrom.done : BoundedFrom total buf size ⟨[], some (.ok total)⟩ :=
  .stop fun n hn => by cases hn; rfl

theorem BoundedFrom.totalOr (e : Errno) : BoundedFrom total buf size ⟨[], some (totalOr total e)⟩ :=
  .stop fun _ hn => totalOr_ok (Option.some.inj hn)

/-- One more turn with `k` bytes. -/
theorem BoundedFrom.copied
    (h : BoundedFrom (total + k) (buf + BitVec.ofNat 64 k) (size - k) r) (hk : k ≤ size)
    (hl : Within buf size l) : BoundedFrom total buf size ⟨l ++ r.touched, r.ret⟩ := by
  refine ⟨forall_mem_append.2 ⟨hl, h.1.shift (by omega)⟩, fun n hn => ?_⟩
  have hle := h.2 n hn
  omega

theorem BoundedFrom.bounded (h : BoundedFrom 0 buf size r) : Bounded buf size r := by
  unfold BoundedFrom at h
  rwa [zero_add] at h

theorem within_start (hn : n ≤ size) : Within buf size [⟨buf, n⟩] :=
  within_cons 0 (BitVec.add_zero buf).symm (by omega) within_nil

end Within

section Loops

variable {pageErr : Nat → Option Errno} {buf : BitVec 64} {isize : Nat}

theorem chunkLen_le (pos size : Nat) : chunkLen pos size ≤ size := min_le_right _ _

theorem chunkLen_pos (pos : Nat) (h : size ≠ 0) : 0 < chunkLen pos size := by
  have hpage : pageSize = 4096 := rfl
  unfold chunkLen
  rw [hpage]
  omega

/-- The loop over pages keeps to what is left of the buffer. -/
theorem pageLoop_within (pageErr : Nat → Option Errno) (fuel pos size : Nat) (buf : BitVec 64)
    (total : Nat) : BoundedFrom total buf size
      ⟨(pageLoop pageErr fuel pos size buf total).touched,
        some (.ok (pageLoop pageErr fuel pos size buf total).total)⟩ := by
  fun_induction pageLoop pageErr fuel pos size buf total with
  | case1 => exact .done
  | case2 => exact .done
  | case3 => exact .done
  | case4 _ pos size _ _ _ _ _ ih =>
    have hle := chunkLen_le pos size
    exact ih.copied hle (within_start hle)

/-- Without errors it goes to the end. -/
theorem pageLoop_all (pageErr : Nat → Option Errno) (herr : ∀ i, pageErr i = none)
    (fuel pos size : Nat) (buf : BitVec 64) (total : Nat) (h : size ≤ fuel) :
    (pageLoop pageErr fuel pos size buf total).total = total + size ∧
      (pageLoop pageErr fuel pos size buf total).err = none := by
  fun_induction pageLoop pageErr fuel pos size buf total with
  | case1 | case2 => exact ⟨by dsimp only; omega, rfl⟩
  | case3 _ _ _ _ _ _ e he => exact absurd ((herr _).symm.trans he) (Option.some_ne_none e).symm
  | case4 _ pos size _ _ h0 _ nr ih =>
    have hpos : 0 < nr := chunkLen_pos pos h0
    have hle : nr ≤ size := chunkLen_le pos size
    obtain ⟨ht, he⟩ := ih (by omega)
    exact ⟨ht.trans (by omega), he⟩

theorem result_counted {r : LoopEnd} (h : r.result.ret = some (.ok n)) : n ≤ r.total := by
  unfold LoopEnd.result at h
  split at h
  · cases h
    exact Nat.le_refl _
  cases he : r.err with
  | none =>
    rw [he] at h
    cases h
    exact Nat.zero_le _
  | some e =>
    rw [he] at h
    cases h

theorem tmpfsReadLoop_within (isize pages off n : Nat) :
    Within buf n (tmpfsReadLoop isize buf pages off n).1 := by
  fun_induction tmpfsReadLoop isize buf pages off n with
  | case1 => exact within_nil
  | case2 => exact within_start (min_le_right _ _)
  | case3 _ off n size _ _ ih =>
    refine within_cons 0 (BitVec.add_zero buf).symm (by omega) ?_
    intro t ht
    obtain ⟨off', haddr, hlen⟩ := ih t ht
    exact ⟨off', haddr, by omega⟩

/-- With pages for all of the file, everything is read that there is. -/
theorem tmpfsReadLoop_all (pages off n : Nat) (hoff : off ≤ isize)
    (hpages : isize < pageSize * (off / pageSize + pages)) :
    (tmpfsReadLoop isize buf pages off n).2 = n - min n (isize - off) := by
  have hpage : pageSize = 4096 := rfl
  fun_induction tmpfsReadLoop isize buf pages off n with
  | case1 =>
    rw [hpage] at hpages
    omega
  | case2 pages off n size hend =>
    have hsize : size = min (min (isize - off) (pageSize - off % pageSize)) n := rfl
    rw [hpage] at hsize hpages
    show n - size = _
    omega
  | case3 pages off n size hend r ih =>
    have hsize : size = min (min (isize - off) (pageSize - off % pageSize)) n := rfl
    rw [hpage] at hsize hpages ih
    -- a chunk ends with the request, with the file or with the page
    have hends : size = n ∨ size = isize - off ∨ size = 4096 - off % 4096 := by omega
    have hmore : isize < 4096 * ((off + size) / 4096 + pages) := by
      rcases hends with h | h | h
      · omega
      · omega
      · omega
    exact (ih (by omega) hmore).trans (by omega)

theorem ringRanges_within {first : Nat} (h : n ≤ size) :
    Within buf size (ringRanges buf first n) := by
  unfold ringRanges
  split
  · refine within_cons 0 (BitVec.add_zero buf).symm (by omega) ?_
    exact within_cons first rfl (by omega) within_nil
  · exact within_start h

theorem pipeReadSection_count
    (h : (pipeReadSection p size total killed).1 = .ret (.ok n)) : n = total := by
  obtain ⟨-, -, ⟨hr, -⟩ | ⟨⟨e, he⟩, -⟩⟩ := pipeReadSection_ret (Prod.ext h rfl)
  · cases hr
    rfl
  · cases he

theorem pipeWriteSection_count {rest : List UInt8}
    (h : (pipeWriteSection p rest total killed).1 = .ret (.ok n)) : n = total := by
  obtain ⟨-, e, he⟩ := pipeWriteSection_ret (Prod.ext h rfl)
  exact totalOr_ok he.symm

section Pipe

variable {sec : AnonPipe → Nat → Nat → Bool → SectionEnd} {room first : AnonPipe → Nat}

theorem pipeLoop_within (hsec : ∀ {p size total killed n},
      sec p size total killed = .ret (.ok n) → n = total) (size total : Nat) (buf : BitVec 64) :
    BoundedFrom total buf size (pipeLoop sec room first secs size total buf) := by
  fun_induction pipeLoop sec room first secs size total buf with
  | case1 => exact .done
  | case2 => exact .stop nofun
  | case3 _ _ _ _ _ _ _ r hret =>
    exact .stop fun n hn => hsec (hret.trans (congrArg _ (Option.some.inj hn)))
  | case4 _ _ _ _ _ _ _ _ ih => exact ih
  | case5 _ _ _ _ _ _ _ _ _ _ _ ih =>
    exact ih.copied (min_le_right _ _) (ringRanges_within (min_le_right _ _))

/-- A pipe with that many bytes in it and nobody gone. -/
def busyPipe (count : Nat) : AnonPipe := ⟨0, count, 1, 1, false, fun _ => 0⟩

/-- A loop that finds room for a page each of the `k` times it takes the lock goes to the end. -/
theorem pipeLoop_all (hsec : ∀ size total, ∃ chunk, sec p size total false = .copied chunk)
    (hroom : room p = 4096) (k : Nat) : ∀ (size total : Nat) (buf : BitVec 64), size ≤ 4096 * k →
      total + size = n →
      (pipeLoop sec room first (replicate k (p, false)) size total buf).ret = some (.ok n) := by
  induction k with
  | zero =>
    intro size total buf h hn
    rw [← hn, Nat.le_zero.1 h]
    rfl
  | succ k ih =>
    intro size total buf h hn
    unfold pipeLoop
    split
    · rw [← hn]
      simp [*]
    · obtain ⟨chunk, hchunk⟩ := hsec size total
      rw [replicate_succ]
      dsimp only
      rw [hchunk, hroom]
      exact ih _ _ _ (by omega) (by omega)

end Pipe

/-- The next range that a block device accepts follows the ones before it. -/
theorem userRangeOk_extend (hprev : total = 0 ∨ userRangeOk buf total = true)
    (h : userRangeOk (buf + BitVec.ofNat 64 total) n = true) :
    userRangeOk buf (total + n) = true := by
  have hmax : userSpaceSizeMax = 274877902848 := by decide
  rcases hprev with rfl | hprev
  · rw [zero_add]
    exact (BitVec.add_zero buf) ▸ h
  rw [userRangeOk_iff] at hprev h ⊢
  have hsum : (buf + BitVec.ofNat 64 total).toNat = buf.toNat + total := by
    rw [BitVec.toNat_add, BitVec.toNat_ofNat]
    omega
  omega

theorem blkLoop_contained (fuel pos size total : Nat)
    (hprev : total = 0 ∨ userRangeOk buf total = true) :
    Contained buf (blkLoop pageErr buf fuel pos size total) := by
  have hstop : ∀ {total : Nat} {e : Errno}, (total = 0 ∨ userRangeOk buf total = true) →
      Contained buf ⟨[], some (totalOr total e)⟩ := fun hprev =>
    ⟨userOnly_nil, fun n hn => totalOr_ok (Option.some.inj hn) ▸ hprev⟩
  have hdone : ∀ {total : Nat}, (total = 0 ∨ userRangeOk buf total = true) →
      Contained buf ⟨[], some (.ok total)⟩ := fun hprev =>
    ⟨userOnly_nil, fun n hn => by cases hn; exact hprev⟩
  fun_induction blkLoop pageErr buf fuel pos size total with
  | case1 => exact hdone hprev
  | case2 => exact hdone hprev
  | case3 => exact hstop hprev
  | case4 => exact hstop hprev
  | case5 _ _ _ _ _ _ _ hok _ ih =>
    rw [Bool.not_eq_true, Bool.not_eq_false'] at hok
    have hrest := ih (.inr (userRangeOk_extend hprev hok))
    have hone := (within_start le_rfl).userOnly hok
    exact ⟨forall_mem_append.2 ⟨hone, hrest.touched⟩, hrest.counted⟩

theorem blkLoop_bounded (pageErr : Nat → Option Errno) (buf : BitVec 64)
    (fuel pos size total : Nat) : BoundedFrom total (buf + BitVec.ofNat 64 total) size
      (blkLoop pageErr buf fuel pos size total) := by
  fun_induction blkLoop pageErr buf fuel pos size total with
  | case1 => exact .done
  | case2 => exact .done
  | case3 => exact .totalOr _
  | case4 => exact .totalOr _
  | case5 _ pos size _ _ _ _ _ _ ih =>
    have hle := chunkLen_le pos size
    rw [← BitVec.ofNat_add_ofNat, ← BitVec.add_assoc] at ih
    exact ih.copied hle (within_start hle)

end Loops

/-! ## The operations -/

section Bounded

variable {pageErr : Nat → Option Errno} {buf : BitVec 64} {size : Nat}

theorem bounded_nil (hret : ∀ n, ret = some (.ok n) → n = 0) : Bounded buf size ⟨[], ret⟩ :=
  ⟨within_nil, fun n hn => by rw [hret n hn]; exact Nat.zero_le _⟩

theorem Bounded.mono (h : Bounded buf k r) (hk : k ≤ size) : Bounded buf size r := by
  refine ⟨fun t ht => ?_, fun n hn => le_trans (h.2 n hn) hk⟩
  obtain ⟨off, haddr, hlen⟩ := h.1 t ht
  exact ⟨off, haddr, le_trans hlen hk⟩

theorem pageLoop_bounded (fuel pos : Nat) :
    Bounded buf size (pageLoop pageErr fuel pos size buf 0).result := by
  obtain ⟨hw, ht⟩ := (pageLoop_within pageErr fuel pos size buf 0).bounded
  exact ⟨hw, fun n hn => le_trans (result_counted hn) (ht _ rfl)⟩

/-- The signed sum is no more than the sum. -/
theorem clamp_le (h : (isize : Int) < (BitVec.ofNat 64 (pos + size)).toInt) :
    isize - pos ≤ size := by
  have hint : (BitVec.ofNat 64 (pos + size)).toInt ≤ ((pos + size : Nat) : Int) := by
    rw [BitVec.toInt_eq_toNat_cond, BitVec.toNat_ofNat]
    split
    · omega
    · omega
  omega

theorem genericFileRead_bounded :
    Bounded buf size (genericFileRead pageErr mapped isize pos buf size) := by
  unfold genericFileRead
  split
  · exact bounded_nil nofun
  split
  · exact bounded_nil fun n hn => by cases hn; rfl
  split
  · rename_i hclamp
    exact (pageLoop_bounded _ pos).mono (clamp_le hclamp)
  · exact pageLoop_bounded _ pos

theorem genericFileWrite_bounded :
    Bounded buf size (genericFileWrite pageErr mapped pos buf size) := by
  unfold genericFileWrite
  split
  · exact bounded_nil nofun
  · exact pageLoop_bounded _ pos

theorem tmpfsFileRead_bounded {pages : Nat} :
    Bounded buf size (tmpfsFileRead isize pages pos buf size) := by
  unfold tmpfsFileRead
  split
  · exact bounded_nil fun n hn => by cases hn; rfl
  split
  · exact bounded_nil nofun
  · refine ⟨tmpfsReadLoop_within isize _ pos size, fun n hn => ?_⟩
    cases hn
    exact Nat.sub_le _ _

theorem tmpfsFileWrite_bounded : Bounded buf size (tmpfsFileWrite pageErr pos buf size) := by
  unfold tmpfsFileWrite
  split
  · exact bounded_nil nofun
  obtain ⟨hw, ht⟩ := (pageLoop_within pageErr size pos size buf 0).bounded
  refine ⟨hw, fun n hn => ht n ?_⟩
  dsimp only at hn
  cases he : (pageLoop pageErr size pos size buf 0).err with
  | some e =>
    rw [he] at hn
    cases hn
  | none => rwa [he] at hn

section Blkdev

variable {dead allowed : Bool} {capacity : Nat} {atEnd : Except Errno Nat}
  (hend : ∀ n, atEnd = .ok n → n = 0)

include hend

/-- A block device returns at once, or after the loop over what is left of it. -/
theorem blkdevFile_cases {P : IoResult → Prop}
    (hnil : ∀ ret, (∀ n, ret = some (.ok n) → n = 0) → P ⟨[], ret⟩)
    (hloop : ∀ k ≤ size, P (blkLoop pageErr buf k pos k 0)) :
    P (blkdevFile pageErr dead allowed capacity pos atEnd buf size) := by
  unfold blkdevFile
  split
  · exact hnil _ nofun
  split
  · exact hnil _ nofun
  · split
    · exact hnil _ fun n hn => hend n (Option.some.inj hn)
    · exact hloop _ (min_le_left _ _)

theorem blkdevFile_bounded :
    Bounded buf size (blkdevFile pageErr dead allowed capacity pos atEnd buf size) := by
  refine blkdevFile_cases hend (fun _ => bounded_nil) fun k hk => ?_
  have hloop := blkLoop_bounded pageErr buf k pos k 0
  rw [BitVec.add_zero] at hloop
  exact hloop.bounded.mono hk

theorem blkdevFile_contained :
    Contained buf (blkdevFile pageErr dead allowed capacity pos atEnd buf size) :=
  blkdevFile_cases hend (fun _ => contained_nil) fun k _ => blkLoop_contained k pos k 0 (.inl rfl)

end Blkdev

theorem fsFileRead_bounded : Bounded buf size (fsFileRead fmode buf size st) := by
  cases st with
  | brkfs mapped isize pos pageErr => exact genericFileRead_bounded
  | tmpfs isize pages pos pageErr => exact tmpfsFileRead_bounded
  | pipe secs => exact (pipeLoop_within secs pipeReadSection_count size 0 buf).bounded
  | blkdev dead capacity pos pageErr => exact blkdevFile_bounded fun n hn => by cases hn; rfl
  | dir => exact bounded_nil nofun

theorem fsFileWrite_bounded : Bounded buf size (fsFileWrite fmode buf size st) := by
  cases st with
  | brkfs mapped isize pos pageErr => exact genericFileWrite_bounded
  | tmpfs isize pages pos pageErr => exact tmpfsFileWrite_bounded
  | pipe secs => exact (pipeLoop_within secs pipeWriteSection_count size 0 buf).bounded
  | blkdev dead capacity pos pageErr => exact blkdevFile_bounded nofun
  | dir => exact bounded_nil nofun

theorem Bounded.contained (h : Bounded buf size r) (hok : size = 0 ∨ userRangeOk buf size = true) :
    Contained buf r := by
  rcases hok with rfl | hok
  · -- nothing can be touched in an empty buffer
    refine ⟨fun t ht k hk => ?_, fun n hn => .inl (Nat.le_zero.1 (h.2 n hn))⟩
    obtain ⟨off, -, hlen⟩ := h.1 t ht
    omega
  · exact contained_of_within h.1 h.2 hok

end Bounded

section Vector

theorem goodBytes_cons {v : IoVec} {iov : List IoVec}
    (h : v.len = 0 ∨ userRangeOk v.base v.len.toNat = true) :
    goodBytes (v :: iov) = v.len.toNat + goodBytes iov := by
  have hgood : v.good = true := by
    unfold IoVec.good
    rcases h with h | h
    · rw [h]
      rfl
    · rw [h, Bool.or_true]
  unfold goodBytes
  rw [takeWhile_cons_of_pos hgood, map_cons, sum_cons]

theorem iovLoop_contained {op : BitVec 64 → Nat → FileState → IoResult}
    (hop : ∀ buf size st, Bounded buf size (op buf size st)) (l : List (IoVec × FileState)) :
    ∀ total, UserOnly (iovLoop op l total).touched ∧
      ∀ n, (iovLoop op l total).ret = some (.ok n) → n ≤ total + goodBytes (l.map Prod.fst) := by
  induction l with
  | nil => exact fun total => ⟨userOnly_nil, fun n hn => by cases hn; omega⟩
  | cons x l ih =>
    intro total
    obtain ⟨v, st⟩ := x
    unfold iovLoop
    split
    · next hlen =>
        rw [map_cons, goodBytes_cons (.inl hlen)]
        exact ⟨(ih total).1, fun n hn => le_trans ((ih total).2 n hn) (by omega)⟩
    have hstop : ∀ {e : Errno} {n : Nat}, some (totalOr total e) = some (.ok n) → n ≤ total :=
      fun hn => (totalOr_ok (Option.some.inj hn)).le
    split
    · exact ⟨userOnly_nil, fun n hn => le_trans (hstop hn) (Nat.le_add_right _ _)⟩
    rename_i hok
    rw [Bool.not_eq_true, Bool.not_eq_false'] at hok
    obtain ⟨hw, hcount⟩ := hop v.base v.len.toNat st
    have hone := hw.userOnly hok
    rw [map_cons, goodBytes_cons (.inr hok)]
    split
    · exact ⟨hone, nofun⟩
    · exact ⟨hone, fun n hn => le_trans (hstop hn) (Nat.le_add_right _ _)⟩
    next k hret =>
      have hk := hcount k hret
      split
      · refine ⟨hone, fun n hn => ?_⟩
        cases hn
        omega
      · refine ⟨forall_mem_append.2 ⟨hone, (ih (total + k)).1⟩, fun n hn => ?_⟩
        have hn' := (ih (total + k)).2 n hn
        omega

theorem readvWritev_contained (isWrite nomem : Bool) (fmode : FMode) (uiov : BitVec 64)
    (l : List (IoVec × FileState)) :
    VecContained (l.map Prod.fst) (readvWritev isWrite nomem fmode uiov l) := by
  have hnil : ∀ {e : Errno}, VecContained (l.map Prod.fst) ⟨[], some (.error e)⟩ :=
    ⟨userOnly_nil, nofun⟩
  unfold readvWritev readvWritevOp
  split
  · exact hnil
  split
  · exact ⟨userOnly_nil, fun n hn => by cases hn; exact Nat.zero_le _⟩
  split
  · exact hnil
  split
  · exact hnil
  split
  · exact hnil
  rename_i hok
  rw [Bool.not_eq_true, Bool.not_eq_false'] at hok
  have hvec := (within_start (Nat.le_refl _)).userOnly hok
  split
  · exact ⟨hvec, nofun⟩
  have hop : ∀ buf size st, Bounded buf size
      ((if isWrite then fsFileWrite fmode else fsFileRead fmode) buf size st) := by
    intro buf size st
    cases isWrite with
    | true => exact fsFileWrite_bounded fmode st
    | false => exact fsFileRead_bounded fmode st
  obtain ⟨ht, hn⟩ := iovLoop_contained hop l 0
  rw [Nat.zero_add] at hn
  exact ⟨forall_mem_append.2 ⟨hvec, ht⟩, hn⟩

end Vector

/-! ## Ranges that nobody checks -/

section Unchecked

variable {buf n : BitVec 64}

theorem not_contained (hret : r.ret = some (.ok k)) (hk : k ≠ 0)
    (hbad : userRangeOk buf k = false) : ¬ Contained buf r := by
  intro h
  rcases h.counted k hret with h0 | hok
  · exact hk h0
  · rw [hbad] at hok
    cases hok

/-- A bad range is bad because of what is below `2 ^ 39`. -/
theorem bad_min (h : userRangeOk buf k = false) : userRangeOk buf (min k (2 ^ 39)) = false := by
  have hmax : userSpaceSizeMax = 274877902848 := by decide
  cases hok : userRangeOk buf (min k (2 ^ 39)) with
  | false => rfl
  | true =>
    have hk : userRangeOk buf k = true := by
      rw [userRangeOk_iff] at hok ⊢
      omega
    rw [hk] at h
    cases h

/-- A file of that size, or of `2 ^ 39` bytes. The signed sum of a huge size does not limit it. -/
theorem brkfs_read_all (h0 : n.toNat ≠ 0) (hbad : userRangeOk buf n.toNat = false) :
    ¬ Contained buf (sysRead fmode (.brkfs true (min n.toNat (2 ^ 39)) 0 fun _ => none) buf n) := by
  obtain ⟨k, hk, hcase⟩ : ∃ k, sysRead fmode
      (.brkfs true (min n.toNat (2 ^ 39)) 0 fun _ => none) buf n =
        (pageLoop (fun _ => none) k 0 k buf 0).result ∧
        (k = n.toNat ∨ k = min n.toNat (2 ^ 39)) := by
    show ∃ k, genericFileRead (fun _ => none) true (min n.toNat (2 ^ 39)) 0 buf n.toNat = _ ∧ _
    unfold genericFileRead
    rw [if_neg (by decide), if_neg (by omega)]
    split
    · exact ⟨_, rfl, .inr (by omega)⟩
    · exact ⟨_, rfl, .inl rfl⟩
  have hk0 : 0 < k := by omega
  obtain ⟨htotal, -⟩ := pageLoop_all (fun _ => none) (fun _ => rfl) k 0 k buf 0 le_rfl
  rw [zero_add] at htotal
  rw [hk]
  refine not_contained (k := k) ?_ (by omega) ?_
  · unfold LoopEnd.result
    rw [htotal, if_pos hk0]
  · rcases hcase with rfl | rfl
    · exact hbad
    · exact bad_min hbad

theorem tmpfs_read_all (h0 : n.toNat ≠ 0) (hbad : userRangeOk buf n.toNat = false) :
    ¬ Contained buf (sysRead fmode (.tmpfs (min n.toNat (2 ^ 39))
      (min n.toNat (2 ^ 39) / 4096 + 1) 0 fun _ => none) buf n) := by
  have hpage : pageSize = 4096 := rfl
  refine not_contained (k := min n.toNat (2 ^ 39)) ?_ (by omega) (bad_min hbad)
  unfold sysRead fsFileRead tmpfsFileRead
  dsimp only
  rw [if_neg (by omega), if_neg (by rw [hpage]; omega)]
  dsimp only
  rw [tmpfsReadLoop_all _ _ _ (Nat.zero_le _) (by rw [hpage]; omega)]
  congr 2
  omega

theorem write_all (buf : BitVec 64) (pos : Nat) (h0 : n.toNat ≠ 0) :
    (pageLoop (fun _ => none) n.toNat pos n.toNat buf 0).total = n.toNat ∧
      (pageLoop (fun _ => none) n.toNat pos n.toNat buf 0).err = none ∧ 0 < n.toNat := by
  obtain ⟨ht, he⟩ := pageLoop_all (fun _ => none) (fun _ => rfl) n.toNat pos n.toNat buf 0 le_rfl
  rw [zero_add] at ht
  exact ⟨ht, he, pos_of_ne_zero h0⟩

/-- A file of each kind that reads or writes all that it is asked for. -/
def eagerFile (n : BitVec 64) (write : Bool) : FileKind → FileState
  | .brkfs => .brkfs true (min n.toNat (2 ^ 39)) 0 fun _ => none
  | .tmpfs => .tmpfs (min n.toNat (2 ^ 39)) (min n.toNat (2 ^ 39) / 4096 + 1) 0 fun _ => none
  | .pipe => .pipe (List.replicate n.toNat (busyPipe (if write then 0 else 4096), false))
  | .blkdev => .blkdev true 0 0 fun _ => none
  | .dir => .dir

theorem eagerFile_kind (kind : FileKind) : (eagerFile n write kind).kind = kind := by
  cases kind with
  | brkfs => rfl
  | tmpfs => rfl
  | pipe => rfl
  | blkdev => rfl
  | dir => rfl

theorem read_not_contained (hkind : kind.checks = false) (h0 : n.toNat ≠ 0)
    (hbad : userRangeOk buf n.toNat = false) :
    ¬ Contained buf (sysRead ⟨true, true, false⟩ (eagerFile n false kind) buf n) := by
  cases kind with
  | brkfs => exact brkfs_read_all _ h0 hbad
  | tmpfs => exact tmpfs_read_all _ h0 hbad
  | pipe =>
    exact not_contained (pipeLoop_all (fun _ _ => ⟨_, rfl⟩) rfl n.toNat n.toNat 0 buf (by omega)
      (zero_add _)) h0 hbad
  | blkdev | dir => cases hkind

theorem write_not_contained (hkind : kind.checks = false) (h0 : n.toNat ≠ 0)
    (hbad : userRangeOk buf n.toNat = false) :
    ¬ Contained buf (sysWrite ⟨true, true, false⟩ (eagerFile n true kind) buf n) := by
  obtain ⟨ht, he, hpos⟩ := write_all buf 0 h0
  cases kind with
  | brkfs =>
    refine not_contained (k := n.toNat) ?_ h0 hbad
    show some _ = _
    rw [ht, if_pos hpos]
  | tmpfs =>
    refine not_contained (k := n.toNat) ?_ h0 hbad
    show some _ = _
    rw [he, ht]
    rfl
  | pipe =>
    exact not_contained (pipeLoop_all (fun _ _ => ⟨_, rfl⟩) rfl n.toNat n.toNat 0 buf (by omega)
      (zero_add _)) h0 hbad
  | blkdev | dir => cases hkind

/-- A call whose eager file is not contained for bad ranges needs the condition. -/
theorem fits_of_contained {io : FMode → FileState → BitVec 64 → BitVec 64 → IoResult}
    (hnot : kind.checks = false → n.toNat ≠ 0 → userRangeOk buf n.toNat = false →
      ¬ Contained buf (io ⟨true, true, false⟩ (eagerFile n write kind) buf n))
    (h : ∀ fmode st, st.kind = kind → Contained buf (io fmode st buf n)) :
    kind.checks = true ∨ n = 0 ∨ userRangeOk buf n.toNat = true := by
  by_contra hfits
  rw [not_or, not_or] at hfits
  obtain ⟨hkind, h0, hbad⟩ := hfits
  exact hnot (Bool.eq_false_iff.2 hkind) (fun h => h0 (BitVec.eq_of_toNat_eq h))
    (Bool.eq_false_iff.2 hbad) (h _ _ (eagerFile_kind kind))

theorem sysWrite_contained {fmode : FMode} {st : FileState}
    (h : Contained buf (fsFileWrite fmode buf n.toNat st)) :
    Contained buf (sysWrite fmode st buf n) := by
  unfold sysWrite
  split
  · exact contained_nil nofun
  · exact h

/-- A file that checks needs no condition. -/
theorem contained_of_checks (hkind : kind.checks = true) (fmode : FMode) {st : FileState}
    (hst : st.kind = kind) :
    Contained buf (sysRead fmode st buf n) ∧ Contained buf (sysWrite fmode st buf n) := by
  subst hst
  cases st with
  | brkfs mapped isize pos pageErr => cases hkind
  | tmpfs isize pages pos pageErr => cases hkind
  | pipe secs => cases hkind
  | blkdev dead capacity pos pageErr =>
    exact ⟨blkdevFile_contained fun n hn => by cases hn; rfl,
      sysWrite_contained (blkdevFile_contained nofun)⟩
  | dir => exact ⟨contained_nil nofun, sysWrite_contained (contained_nil nofun)⟩

/-- A good range needs no check. -/
theorem contained_of_range (hok : n = 0 ∨ userRangeOk buf n.toNat = true) (fmode : FMode)
    (st : FileState) :
    Contained buf (sysRead fmode st buf n) ∧ Contained buf (sysWrite fmode st buf n) := by
  have hsize : n.toNat = 0 ∨ userRangeOk buf n.toNat = true :=
    hok.imp (fun h => by rw [h]; rfl) id
  exact ⟨(fsFileRead_bounded fmode st).contained hsize,
    sysWrite_contained ((fsFileWrite_bounded fmode st).contained hsize)⟩

end Unchecked

/-- A call touches and counts user memory only, whatever it finds, exactly when the file checks the
range, the call is a vectored one, or the range is empty or in user space. -/
theorem user_io_contained (call : IoCall) : call.Safe ↔ call.Fits := by
  cases call with
  | read kind buf n =>
    constructor
    · exact fits_of_contained read_not_contained
    · rintro (hkind | hok) fmode st hst
      · exact (contained_of_checks hkind fmode hst).1
      · exact (contained_of_range hok fmode st).1
  | write kind buf n =>
    constructor
    · exact fits_of_contained write_not_contained
    · rintro (hkind | hok) fmode st hst
      · exact (contained_of_checks hkind fmode hst).2
      · exact (contained_of_range hok fmode st).2
  | readv uiov iov =>
    refine ⟨fun _ => trivial, fun _ nomem fmode l hl => ?_⟩
    subst hl
    exact readvWritev_contained false nomem fmode uiov l
  | writev uiov iov =>
    refine ⟨fun _ => trivial, fun _ nomem fmode l hl => ?_⟩
    subst hl
    exact readvWritev_contained true nomem fmode uiov l

/-- `read(fd, 0xffffffc000000000, 8)` on a file with eight bytes stores to kernel memory, and
`write` from there loads from it. -/
theorem read_stores_to_kernel :
    (sysRead ⟨true, false, false⟩ (.brkfs true 8 0 fun _ => none) 0xffffffc000000000 8).touched =
      [⟨0xffffffc000000000, 8⟩] ∧
    (sysRead ⟨true, false, false⟩ (.brkfs true 8 0 fun _ => none) 0xffffffc000000000 8).ret =
      some (.ok 8) ∧
    (sysWrite ⟨false, true, false⟩ (.pipe [(busyPipe 0, false)]) 0xffffffc000000000 8).touched =
      [⟨0xffffffc000000000, 8⟩] ∧ ¬ IoCall.Safe (.read .brkfs 0xffffffc000000000 8) := by
  refine ⟨by decide, by decide, by decide, fun h => ?_⟩
  rcases (h ⟨true, false, false⟩ (.brkfs true 8 0 fun _ => none) rfl).counted 8 (by decide) with
    h0 | hok
  · cases h0
  · cases hok

end BrkKernel.Fs
