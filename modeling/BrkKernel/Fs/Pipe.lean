import BrkKernel.Kern.Base
import BrkKernel.Lib.Ring
import BrkKernel.Lib.Actors

/-!
# Pipes

`pipe_read`, `pipe_write` and `pipe_release` of `fs/pipe.c`, with any number of callers that run at
the same time. What a call does between taking and dropping the pipe's lock is one step: the loop
over the lock is `pipeReadSection` or `pipeWriteSection`, and a caller that sleeps runs the same
section again when it is woken, since both loops go back to their test.

The logs `copiedIn` and `copiedOut` record the bytes in the order of the copies. In every state of
a run the bytes copied out, followed by the bytes in the ring, are the bytes copied in
(`PipeInv.fifo`), so the ring is a queue and no byte is lost, duplicated or reordered. `pipe_fifo`
states this for every run, together with what each call returns.
-/

set_option autoImplicit false

namespace BrkKernel.Fs

open Lib

/-- `PIPE_RING_CAP`. -/
def pipeRingCap : Nat := 4096

/-- `struct anon_pipe`. -/
structure AnonPipe where
  head : Nat
  count : Nat
  readers : Nat
  writers : Nat
  nonblock : Bool
  buf : Nat → UInt8

/-- How a section under the lock ends: the call returns, it sleeps, or it has copied bytes and goes
on with the loop. -/
inductive SectionEnd where
  | ret (r : Except Errno Nat)
  | sleep
  | copied (chunk : List UInt8)

/-- `total ? total : -err`. -/
def totalOr (total : Nat) (err : Errno) : Except Errno Nat :=
  if total ≠ 0 then .ok total else .error err

/-- One locked section of `pipe_read`, with `size` bytes still wanted and `total` bytes read. -/
def pipeReadSection (p : AnonPipe) (size total : Nat) (killed : Bool) : SectionEnd × AnonPipe :=
  if p.count = 0 then
    if total ≠ 0 then (.ret (.ok total), p)
    else if p.writers = 0 then (.ret (.ok total), p)
    else if p.nonblock then (.ret (totalOr total .eagain), p)
    else if killed then (.ret (totalOr total .eintr), p)
    else (.sleep, p)
  else
    (.copied (Ring.takeOut pipeRingCap p.buf p.head (min p.count size)),
      { p with head := (p.head + min p.count size) % pipeRingCap
               count := p.count - min p.count size })

/-- One locked section of `pipe_write`, with the bytes `rest` still to be written and `total` bytes
written. -/
def pipeWriteSection (p : AnonPipe) (rest : List UInt8) (total : Nat) (killed : Bool) :
    SectionEnd × AnonPipe :=
  if p.readers = 0 then (.ret (totalOr total .epipe), p)
  else if p.count = pipeRingCap then
    if p.nonblock then (.ret (totalOr total .eagain), p)
    else if killed then (.ret (totalOr total .eintr), p)
    else (.sleep, p)
  else
    (.copied (rest.take (pipeRingCap - p.count)),
      { p with buf := Ring.putIn pipeRingCap p.buf ((p.head + p.count) % pipeRingCap)
                        (rest.take (pipeRingCap - p.count))
               count := p.count + min (pipeRingCap - p.count) rest.length })

/-- `pipe_release` for a file opened with the given modes. -/
def pipeRelease (p : AnonPipe) (fmodeRead fmodeWrite : Bool) : AnonPipe :=
  { p with readers := if fmodeRead then p.readers - 1 else p.readers
           writers := if fmodeWrite then p.writers - 1 else p.writers }

/-- What a task is doing with the pipe. A running call knows the size it was called with or the
bytes that are still to be written, the value of its variable `total`, and, for the statements
below, the bytes that it has moved. -/
inductive Party where
  | idle
  | reading (asked size total : Nat) (moved : List UInt8)
  | writing (rest : List UInt8) (total : Nat) (moved : List UInt8)

/-- A pipe, its users, and the logs of the copies. -/
structure PipeSys where
  pipe : AnonPipe
  party : Nat → Party
  copiedIn : List UInt8
  copiedOut : List UInt8

/-- A pipe as `anon_pipe_create` makes it, with nobody in a call. -/
def PipeSys.create (nonblock : Bool) (buf : Nat → UInt8) : PipeSys where
  pipe := { head := 0, count := 0, readers := 1, writers := 1, nonblock, buf }
  party := fun _ => .idle
  copiedIn := []
  copiedOut := []

/-- The party `i` goes on as `c`. -/
def PipeSys.setParty (s : PipeSys) (i : Nat) (c : Party) : PipeSys :=
  { s with party := Function.update s.party i c }

/-- A return from a call: the call as it was, and the value. -/
structure PipeReturn where
  call : Party
  value : Except Errno Nat

/-- The steps of a pipe and its users. The label is the call that returns, if one does. -/
inductive PipeStep : PipeSys → Option PipeReturn → PipeSys → Prop where
  | startRead (s : PipeSys) (i size : Nat) (h : s.party i = .idle) :
      PipeStep s none (s.setParty i (.reading size size 0 []))
  | startWrite (s : PipeSys) (i : Nat) (data : List UInt8) (h : s.party i = .idle) :
      PipeStep s none (s.setParty i (.writing data 0 []))
  /-- The loop of `pipe_read` ends because nothing more is wanted. -/
  | readDone (s : PipeSys) (i asked total : Nat) (moved : List UInt8)
      (h : s.party i = .reading asked 0 total moved) :
      PipeStep s (some ⟨.reading asked 0 total moved, .ok total⟩) (s.setParty i .idle)
  | readReturn (s : PipeSys) (i asked size total : Nat) (moved : List UInt8) (killed : Bool)
      (r : Except Errno Nat) (p : AnonPipe) (h : s.party i = .reading asked size total moved)
      (hsize : 0 < size) (hsec : pipeReadSection s.pipe size total killed = (.ret r, p)) :
      PipeStep s (some ⟨.reading asked size total moved, r⟩)
        { s.setParty i .idle with pipe := p }
  | readSleep (s : PipeSys) (i asked size total : Nat) (moved : List UInt8) (killed : Bool)
      (p : AnonPipe) (h : s.party i = .reading asked size total moved) (hsize : 0 < size)
      (hsec : pipeReadSection s.pipe size total killed = (.sleep, p)) :
      PipeStep s none { s with pipe := p }
  | readCopy (s : PipeSys) (i asked size total : Nat) (moved : List UInt8) (killed : Bool)
      (chunk : List UInt8) (p : AnonPipe) (h : s.party i = .reading asked size total moved)
      (hsize : 0 < size)
      (hsec : pipeReadSection s.pipe size total killed = (.copied chunk, p)) :
      PipeStep s none
        { s.setParty i (.reading asked (size - min s.pipe.count size)
            (total + min s.pipe.count size) (moved ++ chunk)) with
          pipe := p
          copiedOut := s.copiedOut ++ chunk }
  /-- The loop of `pipe_write` ends because everything is written. -/
  | writeDone (s : PipeSys) (i total : Nat) (moved : List UInt8)
      (h : s.party i = .writing [] total moved) :
      PipeStep s (some ⟨.writing [] total moved, .ok total⟩) (s.setParty i .idle)
  | writeReturn (s : PipeSys) (i : Nat) (rest : List UInt8) (total : Nat) (moved : List UInt8)
      (killed : Bool) (r : Except Errno Nat) (p : AnonPipe)
      (h : s.party i = .writing rest total moved) (hrest : rest ≠ [])
      (hsec : pipeWriteSection s.pipe rest total killed = (.ret r, p)) :
      PipeStep s (some ⟨.writing rest total moved, r⟩) { s.setParty i .idle with pipe := p }
  | writeSleep (s : PipeSys) (i : Nat) (rest : List UInt8) (total : Nat) (moved : List UInt8)
      (killed : Bool) (p : AnonPipe) (h : s.party i = .writing rest total moved)
      (hrest : rest ≠ []) (hsec : pipeWriteSection s.pipe rest total killed = (.sleep, p)) :
      PipeStep s none { s with pipe := p }
  | writeCopy (s : PipeSys) (i : Nat) (rest : List UInt8) (total : Nat) (moved : List UInt8)
      (killed : Bool) (chunk : List UInt8) (p : AnonPipe)
      (h : s.party i = .writing rest total moved) (hrest : rest ≠ [])
      (hsec : pipeWriteSection s.pipe rest total killed = (.copied chunk, p)) :
      PipeStep s none
        { s.setParty i (.writing (rest.drop (min (pipeRingCap - s.pipe.count) rest.length))
            (total + min (pipeRingCap - s.pipe.count) rest.length) (moved ++ chunk)) with
          pipe := p
          copiedIn := s.copiedIn ++ chunk }
  | release (s : PipeSys) (fmodeRead fmodeWrite : Bool) :
      PipeStep s none { s with pipe := pipeRelease s.pipe fmodeRead fmodeWrite }

/-- Runs of a pipe and its users. -/
def PipeRun : PipeSys → PipeSys → Prop := Run fun s s' => ∃ l, PipeStep s l s'

/-! ## The sections -/

section Sections

variable {p p' : AnonPipe} {size total : Nat} {rest chunk : List UInt8} {killed : Bool}
  {r : Except Errno Nat}

theorem pipeReadSection_ret (h : pipeReadSection p size total killed = (.ret r, p')) :
    p' = p ∧ p.count = 0 ∧
      (r = .ok total ∧ (total ≠ 0 ∨ p.writers = 0) ∨ (∃ e, r = .error e) ∧ total = 0) := by
  unfold pipeReadSection at h
  split at h
  · rename_i hcount
    split at h
    · rename_i htotal
      cases h
      exact ⟨rfl, hcount, .inl ⟨rfl, .inl htotal⟩⟩
    rename_i htotal
    have hzero : total = 0 := not_not.1 htotal
    have hor : ∀ e, totalOr total e = .error e := fun e => by simp [totalOr, hzero]
    split at h
    · rename_i hwriters
      cases h
      exact ⟨rfl, hcount, .inl ⟨rfl, .inr hwriters⟩⟩
    split at h
    · cases h
      exact ⟨rfl, hcount, .inr ⟨⟨_, hor _⟩, hzero⟩⟩
    split at h
    · cases h
      exact ⟨rfl, hcount, .inr ⟨⟨_, hor _⟩, hzero⟩⟩
    · cases h
  · cases h

theorem pipeReadSection_sleep (h : pipeReadSection p size total killed = (.sleep, p')) :
    p' = p := by
  unfold pipeReadSection at h
  repeat' split at h
  all_goals cases h
  rfl

theorem pipeReadSection_copied (h : pipeReadSection p size total killed = (.copied chunk, p')) :
    chunk = Ring.takeOut pipeRingCap p.buf p.head (min p.count size) ∧
      p' = { p with head := (p.head + min p.count size) % pipeRingCap
                    count := p.count - min p.count size } := by
  unfold pipeReadSection at h
  split at h
  · repeat' split at h
    all_goals cases h
  · cases h
    exact ⟨rfl, rfl⟩

theorem pipeWriteSection_ret (h : pipeWriteSection p rest total killed = (.ret r, p')) :
    p' = p ∧ ∃ e, r = totalOr total e := by
  unfold pipeWriteSection at h
  repeat' split at h
  all_goals cases h
  all_goals exact ⟨rfl, _, rfl⟩

theorem pipeWriteSection_sleep (h : pipeWriteSection p rest total killed = (.sleep, p')) :
    p' = p := by
  unfold pipeWriteSection at h
  repeat' split at h
  all_goals cases h
  rfl

theorem pipeWriteSection_copied (h : pipeWriteSection p rest total killed = (.copied chunk, p')) :
    chunk = rest.take (pipeRingCap - p.count) ∧
      p' = { p with buf := Ring.putIn pipeRingCap p.buf ((p.head + p.count) % pipeRingCap)
                             (rest.take (pipeRingCap - p.count))
                    count := p.count + min (pipeRingCap - p.count) rest.length } := by
  unfold pipeWriteSection at h
  split at h
  · cases h
  split at h
  · repeat' split at h
    all_goals cases h
  · cases h
    exact ⟨rfl, rfl⟩

end Sections

/-! ## The invariant -/

/-- The bytes in the ring, in the order in which they will be read. -/
def AnonPipe.contents (p : AnonPipe) : List UInt8 :=
  Ring.contents pipeRingCap p.buf p.head p.count

/-- A call's variable `total` is the number of bytes that it has moved, and the bytes still wanted
by a read are those it was called with less those it has. -/
def Party.Counted : Party → Prop
  | .idle => True
  | .reading asked size total moved => total = moved.length ∧ size + total = asked
  | .writing _ total moved => total = moved.length

/-- The ring is a queue between the two logs, and the calls count correctly. -/
structure PipeInv (s : PipeSys) : Prop where
  head : s.pipe.head < pipeRingCap
  bound : s.pipe.count ≤ pipeRingCap
  fifo : s.copiedOut ++ s.pipe.contents = s.copiedIn
  parties : ∀ i, (s.party i).Counted

/-- What a call may return, given the pipe when it returns. -/
def PipeReturn.Ok (p : AnonPipe) : PipeReturn → Prop
  | ⟨.reading asked _ _ moved, .ok n⟩ =>
    n = moved.length ∧ (n = 0 → asked = 0 ∨ p.count = 0 ∧ p.writers = 0)
  | ⟨.writing _ _ moved, .ok n⟩ => n = moved.length
  | ⟨.reading _ _ _ moved, .error _⟩ => moved = []
  | ⟨.writing _ _ moved, .error _⟩ => moved = []
  | ⟨.idle, _⟩ => False

theorem PipeInv.setParty {s : PipeSys} (hs : PipeInv s) {i : Nat} {c : Party} (hc : c.Counted) :
    PipeInv (s.setParty i c) := by
  refine ⟨hs.head, hs.bound, hs.fifo, fun j => ?_⟩
  by_cases hj : j = i
  · subst hj
    simpa [PipeSys.setParty] using hc
  · simpa [PipeSys.setParty, hj] using hs.parties j

theorem totalOr_cases (total : Nat) (e : Errno) :
    totalOr total e = .ok total ∨ totalOr total e = .error e ∧ total = 0 := by
  unfold totalOr
  split
  · exact .inl rfl
  · rename_i h
    exact .inr ⟨rfl, not_not.1 h⟩

/-- Copying out takes the front of the queue. -/
theorem PipeInv.copyOut {s : PipeSys} (hs : PipeInv s) {n : Nat} (hn : n ≤ s.pipe.count) :
    Ring.takeOut pipeRingCap s.pipe.buf s.pipe.head n ++
        Ring.contents pipeRingCap s.pipe.buf ((s.pipe.head + n) % pipeRingCap)
          (s.pipe.count - n) = s.pipe.contents := by
  rw [Ring.takeOut_eq s.pipe.buf hs.head hs.bound hn, Ring.contents_advance, AnonPipe.contents,
    List.take_append_drop]

theorem PipeInv.step {s s' : PipeSys} {l : Option PipeReturn} (h : PipeStep s l s')
    (hs : PipeInv s) : PipeInv s' := by
  cases h with
  | startRead i size _ => exact hs.setParty ⟨rfl, rfl⟩
  | startWrite i data _ => exact hs.setParty rfl
  | readDone i asked total moved _ => exact hs.setParty trivial
  | readReturn i asked size total moved killed r p _ _ hsec =>
    obtain ⟨rfl, -, -⟩ := pipeReadSection_ret hsec
    exact hs.setParty trivial
  | readSleep i asked size total moved killed p _ _ hsec =>
    rw [pipeReadSection_sleep hsec]
    exact hs
  | readCopy i asked size total moved killed chunk p hp _ hsec =>
    obtain ⟨rfl, rfl⟩ := pipeReadSection_copied hsec
    have hn : min s.pipe.count size ≤ s.pipe.count := min_le_left _ _
    obtain ⟨htotal, hasked⟩ : total = moved.length ∧ size + total = asked := by
      have := hs.parties i
      rwa [hp] at this
    have hlen : (Ring.takeOut pipeRingCap s.pipe.buf s.pipe.head (min s.pipe.count size)).length =
        min s.pipe.count size := by
      rw [Ring.takeOut_eq s.pipe.buf hs.head hs.bound hn, List.length_take, Ring.length_contents]
      omega
    have hcounted : Party.Counted (.reading asked (size - min s.pipe.count size)
        (total + min s.pipe.count size) (moved ++ Ring.takeOut pipeRingCap s.pipe.buf s.pipe.head
          (min s.pipe.count size))) := by
      refine ⟨?_, by omega⟩
      rw [List.length_append, hlen, htotal]
    refine ⟨Nat.mod_lt _ (by decide), ?_, ?_, (hs.setParty hcounted).parties⟩
    · have := hs.bound
      simp only
      omega
    -- the bytes copied out move from the ring to the log
    simp only [AnonPipe.contents, List.append_assoc]
    rw [hs.copyOut hn]
    exact hs.fifo
  | writeDone i total moved _ => exact hs.setParty trivial
  | writeReturn i rest total moved killed r p _ _ hsec =>
    obtain ⟨rfl, -⟩ := pipeWriteSection_ret hsec
    exact hs.setParty trivial
  | writeSleep i rest total moved killed p _ _ hsec =>
    rw [pipeWriteSection_sleep hsec]
    exact hs
  | writeCopy i rest total moved killed chunk p hp _ hsec =>
    obtain ⟨rfl, rfl⟩ := pipeWriteSection_copied hsec
    have hlen : (rest.take (pipeRingCap - s.pipe.count)).length =
        min (pipeRingCap - s.pipe.count) rest.length := List.length_take
    have htotal : total = moved.length := by
      have := hs.parties i
      rwa [hp] at this
    have hcounted : Party.Counted (.writing
        (rest.drop (min (pipeRingCap - s.pipe.count) rest.length))
        (total + min (pipeRingCap - s.pipe.count) rest.length)
        (moved ++ rest.take (pipeRingCap - s.pipe.count))) := by
      show _ = (moved ++ rest.take (pipeRingCap - s.pipe.count)).length
      rw [List.length_append, hlen, htotal]
    have hbound := hs.bound
    refine ⟨hs.head, ?_, ?_, (hs.setParty hcounted).parties⟩
    · simp only
      omega
    -- the bytes copied in are behind those that were in the ring
    simp only [AnonPipe.contents]
    rw [← hlen, Ring.contents_putIn s.pipe.buf _ hs.head (by omega), ← hs.fifo,
      AnonPipe.contents, List.append_assoc]
    rfl
  | release fmodeRead fmodeWrite => exact ⟨hs.head, hs.bound, hs.fifo, hs.parties⟩

theorem PipeInv.returns {s s' : PipeSys} {ret : PipeReturn} (h : PipeStep s (some ret) s')
    (hs : PipeInv s) : ret.Ok s.pipe := by
  cases h with
  | readDone i asked total moved hp =>
    obtain ⟨htotal, hasked⟩ : total = moved.length ∧ 0 + total = asked := by
      have := hs.parties i
      rwa [hp] at this
    exact ⟨htotal, fun hzero => .inl (by omega)⟩
  | readReturn i asked size total moved killed r p hp _ hsec =>
    obtain ⟨-, hcount, hr⟩ := pipeReadSection_ret hsec
    obtain ⟨htotal, -⟩ : total = moved.length ∧ size + total = asked := by
      have := hs.parties i
      rwa [hp] at this
    rcases hr with ⟨rfl, hw⟩ | ⟨⟨e, rfl⟩, hzero⟩
    · refine ⟨htotal, fun hzero => .inr ⟨hcount, ?_⟩⟩
      exact hw.resolve_left (fun hne => hne hzero)
    · exact List.length_eq_zero_iff.1 (by omega)
  | writeDone i total moved hp =>
    have := hs.parties i
    rwa [hp] at this
  | writeReturn i rest total moved killed r p hp _ hsec =>
    obtain ⟨-, e, rfl⟩ := pipeWriteSection_ret hsec
    have htotal : total = moved.length := by
      have := hs.parties i
      rwa [hp] at this
    rcases totalOr_cases total e with hr | ⟨hr, hzero⟩
    · rw [hr]
      exact htotal
    · rw [hr]
      exact List.length_eq_zero_iff.1 (by omega)

theorem PipeInv.create (nonblock : Bool) (buf : Nat → UInt8) :
    PipeInv (PipeSys.create nonblock buf) :=
  ⟨Nat.zero_lt_of_lt (show 0 < pipeRingCap by decide), Nat.zero_le _, rfl, fun _ => trivial⟩

theorem PipeInv.run {s s' : PipeSys} (hrun : PipeRun s s') (hs : PipeInv s) : PipeInv s' :=
  hrun.invariant (P := fun s => PipeInv s) (fun _ _ ⟨_, hstep⟩ hinv => PipeInv.step hstep hinv) hs

/-- A pipe is a bounded queue. In every state that any number of readers, writers and closers reach
by any interleaving of their sections, the bytes copied out are a prefix of the bytes copied in and
`count`, at most `PIPE_RING_CAP`, bytes are between them. A call that returns from such a state
returns the number of bytes that it moved; a read returns `0` only if it was asked for nothing or
the ring is empty and has no writer, and an error is returned only if nothing was moved. -/
theorem pipe_fifo (nonblock : Bool) (buf : Nat → UInt8) {s : PipeSys}
    (hrun : PipeRun (PipeSys.create nonblock buf) s) :
    s.copiedOut <+: s.copiedIn ∧ s.copiedIn.length = s.copiedOut.length + s.pipe.count ∧
      s.pipe.count ≤ pipeRingCap ∧ ∀ ret s', PipeStep s (some ret) s' → ret.Ok s.pipe := by
  have hs : PipeInv s := PipeInv.run hrun (PipeInv.create nonblock buf)
  refine ⟨⟨s.pipe.contents, hs.fifo⟩, ?_, hs.bound, fun ret s' hstep => hs.returns hstep⟩
  rw [← hs.fifo, List.length_append, AnonPipe.contents, Ring.length_contents]

/-- A writer that has put two bytes into a new pipe, and a reader that has taken one and returns. -/
theorem pipe_fifo_two_bytes : ∃ s s' ret, PipeRun (PipeSys.create false fun _ => 0) s ∧
    s.copiedIn = [104, 105] ∧ s.copiedOut = [104] ∧ s.copiedOut <+: s.copiedIn ∧
    ret = ⟨.reading 1 0 1 [104], .ok 1⟩ ∧ PipeStep s (some ret) s' ∧ ret.Ok s.pipe := by
  have hstart : PipeRun (PipeSys.create false fun _ => 0)
      ((PipeSys.create false fun _ => 0).setParty 0 (.writing [104, 105] 0 [])) :=
    .single ⟨none, .startWrite _ 0 [104, 105] rfl⟩
  have hrun := ((hstart.tail
    ⟨none, .writeCopy _ 0 [104, 105] 0 [] false _ _ rfl (by simp) rfl⟩).tail
    ⟨none, .startRead _ 1 1 rfl⟩).tail ⟨none, .readCopy _ 1 1 1 0 [] false _ _ rfl (by simp) rfl⟩
  obtain ⟨hfifo, -, -, hall⟩ := pipe_fifo false (fun _ => 0) hrun
  exact ⟨_, _, _, hrun, rfl, rfl, hfifo, rfl, .readDone _ 1 1 1 [104] rfl,
    hall _ _ (.readDone _ 1 1 1 [104] rfl)⟩

end BrkKernel.Fs
