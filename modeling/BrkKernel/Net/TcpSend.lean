import BrkKernel.Lib.Actors
import BrkKernel.Net.TcpRecv

/-!
# Sending on a TCP socket

Any number of `tcp_sendmsg` calls on one socket, together with `tcp_shutdown`, `tcp_release`,
incoming segments and timer ticks, in any interleaving of their sections under `tcp_lock`. A call
learns that its data is acknowledged only from the transmit slot no longer holding data, and the
slot is also cleared for other reasons.

`sendmsg_acked` is the contract: a call that returns the length of its buffer has had every segment
acknowledged, and no `FIN` leaves data behind that is neither acknowledged nor in the slot. It holds
in every run in which `tcp_shutdown` is not called while the slot holds data, `tcp_release` is not
called while a call runs, and `kmalloc` does not hand out an address that a running call still
compares with. `sendmsg_shutdown_unacked` is the run in which a shutdown breaks it.
-/

set_option autoImplicit false

namespace BrkKernel.Net

open Lib List

/-- A range of sequence numbers that a segment of data takes, with the number of acknowledgments
that had come when it was put into the slot. -/
structure Chunk where
  seq : Nat
  len : Nat
  since : Nat
deriving DecidableEq

/-- One of the acknowledgment numbers that have come since covers the range. -/
def Acked (acks : List Nat) (k : Chunk) : Prop :=
  ∃ a ∈ acks.drop k.since, tcpSeqGeq a (u32 (k.seq + k.len)) = true

/-- A running call of `tcp_sendmsg`, with the ranges that it has put into the slot. -/
structure SendCall where
  buf : List UInt8
  off : Nat
  pc : SendPc
  chunks : List Chunk

/-- The copy that belongs to a call. -/
def SendPc.buffer : SendPc → Option Nat
  | .copied ptr _ | .sleeping ptr _ => some ptr
  | _ => none

/-- The address that a call can still compare with the slot. -/
def SendPc.remembers : SendPc → Option Nat
  | .copied ptr _ | .sleeping ptr _ | .filled ptr _ _ _ | .failed ptr _ _ => some ptr
  | _ => none

/-- A socket and the calls on it. `live` is false once the socket is freed and `attached` once
`tcp_release` has taken it from its `struct socket`; `out` holds the segments that are built and
not yet passed on. The last four fields only record: the acknowledgment numbers received, the ranges
put into the slot and not taken back, the call that filled the slot last, and how many
acknowledgments had come by then. -/
structure SendSys where
  tsk : TcpSock
  live : Bool
  attached : Bool
  call : Nat → Option SendCall
  out : List Segment
  acks : List Nat
  sent : List Chunk
  owner : Nat
  since : Nat

open SendSys

/-- The range in the slot. -/
def SendSys.inSlot (s : SendSys) : Chunk := ⟨s.tsk.txSeq, s.tsk.txLen, s.since⟩

def SendSys.setCall (s : SendSys) (i : Nat) (c : Option SendCall) : SendSys :=
  { s with call := Function.update s.call i c }

variable {acks : List Nat} {out : List Segment} {i ptr : Nat} {c d : SendCall} {s s' : SendSys}
  {t t' : TcpSock} {o : Option SendCall} {data : List UInt8} {pc : SendPc}

/-- `kmalloc` hands out an address that is in use neither as a copy nor in the slot. -/
def SendSys.Fresh (s : SendSys) (ptr : Nat) : Prop :=
  s.tsk.txPtr ≠ some ptr ∧ ∀ i c, s.call i = some c → c.pc.buffer ≠ some ptr

/-- The call `i` goes on after a section that may have filled the slot. -/
def SendSys.afterSlot (s : SendSys) (i : Nat) (c : SendCall) (r : SendPc × TcpSock) : SendSys :=
  match r.1 with
  | .filled ptr seq ack data =>
    { s.setCall i (some { c with pc := .filled ptr seq ack data
                                 chunks := c.chunks ++ [⟨seq, data.length, s.acks.length⟩] }) with
      tsk := r.2
      sent := s.sent ++ [⟨seq, data.length, s.acks.length⟩]
      owner := i
      since := s.acks.length }
  | pc => { s.setCall i (some { c with pc := pc }) with tsk := r.2 }

/-- What can happen. -/
inductive SendOp where
  | start (i : Nat) (buf : List UInt8)
  | top (i : Nat) (alloc : Option Nat) (copyOk : Bool)
  | lock (i now : Nat)
  | wake (i now : Nat)
  /-- `tcp_send_segment` succeeds; the copy may be freed by then and hold other bytes. -/
  | emit (i : Nat) (bytes : List UInt8)
  | emitFail (i : Nat) (e : Errno)
  | undo (i : Nat)
  | wait (i : Nat)
  | ret (i : Nat) (r : Except Errno Nat)
  | segment (g : Segment) (now : Nat)
  | tick (now : Nat) (room built : Bool)
  | shutdownRd
  | shutdownWr (now : Nat)
  | release (now : Nat)
  /-- A segment that was built under the lock is passed on. -/
  | xmit (g : Segment)

/-- The steps of a socket and the calls on it. A section on a socket that has been freed has no
defined effect and no step. -/
inductive SendStep : SendSys → SendOp → SendSys → Prop where
  | start (s : SendSys) (i : Nat) (buf : List UInt8) (hidle : s.call i = none)
      (hattached : s.attached = true) :
      SendStep s (.start i buf) (s.setCall i (some ⟨buf, 0, .top, []⟩))
  | top (s : SendSys) (i : Nat) (c : SendCall) (alloc : Option Nat) (copyOk : Bool)
      (hlive : s.live = true) (hcall : s.call i = some c) (hpc : c.pc = .top)
      (hfresh : ∀ ptr ∈ alloc, s.Fresh ptr) :
      SendStep s (.top i alloc copyOk)
        (s.setCall i (some { c with pc := sendTop s.tsk c.buf c.off alloc copyOk }))
  | lock (s : SendSys) (i : Nat) (c : SendCall) (ptr : Nat) (data : List UInt8) (now : Nat)
      (hlive : s.live = true) (hcall : s.call i = some c) (hpc : c.pc = .copied ptr data) :
      SendStep s (.lock i now) (s.afterSlot i c (sendLock s.tsk ptr data now))
  | wake (s : SendSys) (i : Nat) (c : SendCall) (ptr : Nat) (data : List UInt8) (now : Nat)
      (hlive : s.live = true) (hcall : s.call i = some c) (hpc : c.pc = .sleeping ptr data) :
      SendStep s (.wake i now) (s.afterSlot i c (sendSlot s.tsk ptr data now))
  | emit (s : SendSys) (i : Nat) (c : SendCall) (ptr seq ack : Nat) (data bytes : List UInt8)
      (hlive : s.live = true) (hcall : s.call i = some c) (hpc : c.pc = .filled ptr seq ack data)
      (hlen : bytes.length = data.length)
      (hbytes : s.tsk.txPtr = some ptr → bytes = s.tsk.txData) :
      SendStep s (.emit i bytes)
        { s.setCall i (some { c with pc := .waiting data.length }) with
          out := s.out ++ [dataSegment s.tsk seq ack bytes] }
  | emitFail (s : SendSys) (i : Nat) (c : SendCall) (ptr seq ack : Nat) (data : List UInt8)
      (e : Errno) (hlive : s.live = true) (hcall : s.call i = some c)
      (hpc : c.pc = .filled ptr seq ack data) :
      SendStep s (.emitFail i e) (s.setCall i (some { c with pc := .failed ptr seq e }))
  | undo (s : SendSys) (i : Nat) (c : SendCall) (ptr seq : Nat) (e : Errno)
      (hlive : s.live = true) (hcall : s.call i = some c) (hpc : c.pc = .failed ptr seq e) :
      SendStep s (.undo i)
        { s.setCall i (some { c with pc := .done (.error e) }) with
          tsk := tcpUndoTx s.tsk ptr seq
          sent := if s.tsk.txKind = .data ∧ s.tsk.txPtr = some ptr then s.sent.dropLast
                  else s.sent }
  | wait (s : SendSys) (i : Nat) (c : SendCall) (n : Nat) (hlive : s.live = true)
      (hcall : s.call i = some c) (hpc : c.pc = .waiting n) :
      SendStep s (.wait i)
        (s.setCall i (some { c with pc := (sendWait s.tsk c.off n).1
                                    off := (sendWait s.tsk c.off n).2 }))
  | ret (s : SendSys) (i : Nat) (c : SendCall) (r : Except Errno Nat)
      (hcall : s.call i = some c) (hpc : c.pc = .done r) :
      SendStep s (.ret i r) (s.setCall i none)
  | segment (s : SendSys) (g : Segment) (now : Nat) (hlive : s.live = true) :
      SendStep s (.segment g now)
        { s with tsk := (tcpRcvSock s.tsk g now).tsk
                 out := s.out ++ (tcpRcvSock s.tsk g now).reply.toList
                 acks := s.acks ++ if g.ackFlag then [g.ack] else [] }
  | tick (s : SendSys) (now : Nat) (room built : Bool) (t : TcpSock) (o : Option Segment)
      (hlive : s.live = true) (htick : tcpTimerSock s.tsk now room built = .kept t o) :
      SendStep s (.tick now room built) { s with tsk := t, out := s.out ++ o.toList }
  | tickFree (s : SendSys) (now : Nat) (room built : Bool) (hlive : s.live = true)
      (htick : tcpTimerSock s.tsk now room built = .freed) :
      SendStep s (.tick now room built) { s with live := false }
  | shutdownRd (s : SendSys) (hlive : s.live = true) (hattached : s.attached = true) :
      SendStep s .shutdownRd { s with tsk := tcpShutdownRd s.tsk }
  | shutdownWr (s : SendSys) (now : Nat) (hlive : s.live = true) (hattached : s.attached = true) :
      SendStep s (.shutdownWr now)
        { s with tsk := (tcpShutdownWr s.tsk now).1
                 out := s.out ++ (tcpShutdownWr s.tsk now).2.toList }
  | release (s : SendSys) (now : Nat) (t : TcpSock) (o : Option Segment) (hlive : s.live = true)
      (hattached : s.attached = true) (hrel : tcpReleaseSock s.tsk now = .orphaned t o) :
      SendStep s (.release now)
        { s with tsk := t, attached := false, out := s.out ++ o.toList }
  | releaseFree (s : SendSys) (now : Nat) (hlive : s.live = true) (hattached : s.attached = true)
      (hrel : tcpReleaseSock s.tsk now = .freed) :
      SendStep s (.release now) { s with live := false, attached := false }
  | xmit (s : SendSys) (g : Segment) (before after : List Segment)
      (hout : s.out = before ++ g :: after) :
      SendStep s (.xmit g) { s with out := before ++ after }

/-- The condition on an operation: a shutdown finds no data in the slot, a release neither data nor
a running call, and `kmalloc` returns no address that another running call remembers. -/
def SendOp.Careful (s : SendSys) : SendOp → Prop
  | .shutdownWr _ => s.tsk.txKind ≠ .data
  | .release _ => s.tsk.txKind ≠ .data ∧ ∀ i, s.call i = none
  | .top i (some ptr) _ => ∀ j c, j ≠ i → s.call j = some c → c.pc.remembers ≠ some ptr
  | _ => True

/-- Runs of a socket and the calls on it. -/
def SendRun : SendSys → SendSys → Prop := Run fun s s' => ∃ op, SendStep s op s'

/-- Runs whose operations all meet the condition. -/
def CarefulRun : SendSys → SendSys → Prop := Run fun s s' => ∃ op, SendStep s op s' ∧ op.Careful s

theorem CarefulRun.sendRun (h : CarefulRun s s') : SendRun s s' := by
  refine Relation.ReflTransGen.mono ?_ s s' h
  rintro a b ⟨op, hop, -⟩
  exact ⟨op, hop⟩

/-- The number of bytes of a list of ranges. -/
def chunkBytes (l : List Chunk) : Nat := (l.map Chunk.len).sum

/-- What an operation must not do: a call returns success only if all of its bytes are acknowledged,
and a `FIN` is passed on only if all data before it is acknowledged or can be sent again. -/
def SendOp.Sound (s : SendSys) : SendOp → Prop
  | .ret i (.ok n) => ∀ c, s.call i = some c →
      n = c.buf.length ∧ chunkBytes c.chunks = c.buf.length ∧ ∀ k ∈ c.chunks, Acked s.acks k
  | .xmit g => g.finFlag = true → ∀ k ∈ s.sent,
      Acked s.acks k ∨ s.tsk.txKind = .data ∧ k = s.inSlot
  | _ => True

/-- A socket on which no call runs and whose slot holds no data. -/
structure SendSys.Initial (s : SendSys) : Prop where
  calls : ∀ i, s.call i = none
  out : s.out = []
  sent : s.sent = []
  kind : s.tsk.txKind ≠ .data ∧ s.tsk.txKind ≠ .fin
  mss : 0 < s.tsk.mss ∧ s.tsk.mss < 65536

/-! ## The invariant -/

/-- The range is acknowledged, or it is in the slot for the call, or the call will see an error. -/
def SendSys.Pending (s : SendSys) (i : Nat) (k : Chunk) : Prop :=
  Acked s.acks k ∨ (s.tsk.txKind = .data ∧ s.owner = i ∧ k = s.inSlot) ∨ s.tsk.err ≠ none

/-- The ranges of a call cover the bytes up to `upto`, and all but the last are acknowledged. -/
def SendSys.Outstanding (s : SendSys) (i : Nat) (c : SendCall) (n : Nat) : Prop :=
  ∃ done k, c.chunks = done ++ [k] ∧ (∀ k ∈ done, Acked s.acks k) ∧ s.Pending i k ∧
    chunkBytes c.chunks = c.off + n ∧ c.off + n ≤ c.buf.length

/-- The ranges of a call cover the bytes before `off`, and all are acknowledged. -/
def SendSys.Settled (s : SendSys) (c : SendCall) : Prop :=
  (∀ k ∈ c.chunks, Acked s.acks k) ∧ chunkBytes c.chunks = c.off ∧ c.off ≤ c.buf.length

/-- What holds for a call, by its program point. -/
def SendSys.CallOk (s : SendSys) (i : Nat) (c : SendCall) : SendPc → Prop
  | .top => s.Settled c
  | .copied _ data | .sleeping _ data =>
    s.Settled c ∧ c.off + data.length ≤ c.buf.length ∧ data.length < 65536
  | .filled _ _ _ data => s.Outstanding i c data.length
  | .waiting n => s.Outstanding i c n
  | .done (.ok n) => n = c.buf.length ∧ c.off = c.buf.length ∧ s.Settled c
  | .failed _ _ _ | .done (.error _) => True

/-- Each range that was put into the slot is acknowledged, in the slot, or lost to an error that
closed the connection; a `FIN` exists only when all are acknowledged. -/
structure SendInv (s : SendSys) : Prop where
  mss : 0 < s.tsk.mss ∧ s.tsk.mss < 65536
  isOpen : s.tsk.txKind = .data → s.tsk.canSend = true
  slot : s.tsk.txKind = .data → ∃ before, s.sent = before ++ [s.inSlot] ∧
    ∀ k ∈ before, Acked s.acks k
  settled : s.tsk.txKind ≠ .data → (∀ k ∈ s.sent, Acked s.acks k) ∨
    s.tsk.err ≠ none ∧ s.tsk.state.closing = true
  fin : (s.tsk.txKind = .fin ∨ ∃ g ∈ s.out, g.finFlag = true) →
    s.tsk.state.closing = true ∧ ∀ k ∈ s.sent, Acked s.acks k
  calls : ∀ i c, s.call i = some c → s.CallOk i c c.pc
  distinct : ∀ i j c d p, i ≠ j → s.call i = some c → s.call j = some d →
    c.pc.remembers = some p → d.pc.remembers ≠ some p
  owned : ∀ i c p, s.call i = some c → c.pc.remembers = some p → s.tsk.txKind = .data →
    s.tsk.txPtr = some p → s.owner = i
  since : s.tsk.txKind = .data → s.since ≤ s.acks.length

theorem Acked.mono {acks' : List Nat} {k : Chunk} (hsub : acks <+: acks')
    (h : Acked acks k) : Acked acks' k := by
  obtain ⟨a, ha, hgeq⟩ := h
  obtain ⟨new, rfl⟩ := hsub
  refine ⟨a, ?_, hgeq⟩
  rw [drop_append]
  exact mem_append_left _ ha

theorem chunkBytes_append (l : List Chunk) (k : Chunk) :
    chunkBytes (l ++ [k]) = chunkBytes l + k.len := by
  simp [chunkBytes]

theorem closing_not_canSend (h : t.state.closing = true) : t.canSend = false := by
  cases hs : t.state <;> simp_all [TcpSock.canSend, TcpState.closing]

/-- What holds for a call carries over when acknowledgments stay and its range stays pending. -/
theorem SendSys.CallOk.mono (hack : ∀ k, Acked s.acks k → Acked s'.acks k)
    (hpend : ∀ k, s.Pending i k → s'.Pending i k) (h : s.CallOk i c pc) : s'.CallOk i c pc := by
  have hsettled : s.Settled c → s'.Settled c := fun ⟨h1, h2⟩ => ⟨fun k hk => hack k (h1 k hk), h2⟩
  have hout : ∀ n, s.Outstanding i c n → s'.Outstanding i c n := by
    rintro n ⟨done, k, hk, hdone, hp, hrest⟩
    exact ⟨done, k, hk, fun k hk => hack k (hdone k hk), hpend k hp, hrest⟩
  cases pc with
  | top => exact hsettled h
  | copied ptr data | sleeping ptr data => exact ⟨hsettled h.1, h.2⟩
  | filled ptr seq ack data => exact hout _ h
  | failed ptr seq e => trivial
  | waiting n => exact hout _ h
  | done r =>
    cases r with
    | ok n => exact ⟨h.1, h.2.1, hsettled h.2.2⟩
    | error e => trivial

/-- Whether the socket is still there and attached does not matter to the invariant. -/
theorem SendInv.book (hs : SendInv s) (live attached : Bool) :
    SendInv { s with live := live, attached := attached } :=
  ⟨hs.mss, hs.isOpen, hs.slot, hs.settled, hs.fin, hs.calls, hs.distinct, hs.owned, hs.since⟩

theorem SendSys.setCall_cases {j : Nat}
    (h : (s.setCall i o).call j = some c) : j = i ∧ o = some c ∨ j ≠ i ∧ s.call j = some c := by
  by_cases hj : j = i
  · subst hj
    exact .inl ⟨rfl, by simpa [SendSys.setCall] using h⟩
  · exact .inr ⟨hj, by simpa [SendSys.setCall, hj] using h⟩

section

variable (hs : SendInv s)

include hs

/-- No two calls remember one address when that of the changed call is its own. -/
theorem SendInv.setCall_distinct (hptr : ∀ d p, o = some d → d.pc.remembers = some p →
      ∀ j e, j ≠ i → s.call j = some e → e.pc.remembers ≠ some p) (j k : Nat) (d e : SendCall)
    (p : Nat) (hjk : j ≠ k) (hd : (s.setCall i o).call j = some d)
    (he : (s.setCall i o).call k = some e) (hp : d.pc.remembers = some p) :
    e.pc.remembers ≠ some p := by
  rcases setCall_cases hd with ⟨rfl, hd'⟩ | ⟨hj, hd'⟩
  · rcases setCall_cases he with ⟨rfl, -⟩ | ⟨hk, he'⟩
    · exact absurd rfl hjk
    · exact hptr d p hd' hp k e hk he'
  · rcases setCall_cases he with ⟨rfl, he'⟩ | ⟨hk, he'⟩
    · intro hep
      exact hptr e p he' hep j d hj hd' hp
    · exact hs.distinct j k d e p hjk hd' he' hp

/-- A step that changes only one call keeps the invariant if the call's new state is right. -/
theorem SendInv.setCall (i : Nat) {c : Option SendCall}
    (hcall : ∀ d, c = some d → s.CallOk i d d.pc)
    (hptr : ∀ d p, c = some d → d.pc.remembers = some p →
      (∀ j e, j ≠ i → s.call j = some e → e.pc.remembers ≠ some p) ∧
        (s.tsk.txKind = .data → s.tsk.txPtr = some p → s.owner = i)) : SendInv (s.setCall i c) := by
  refine ⟨hs.mss, hs.isOpen, hs.slot, hs.settled, hs.fin, ?_,
    hs.setCall_distinct fun d p hd hp => (hptr d p hd hp).1, ?_, hs.since⟩
  · intro j d hd
    rcases setCall_cases hd with ⟨rfl, hd'⟩ | ⟨-, hd'⟩
    · exact hcall d hd'
    · exact hs.calls j d hd'
  · intro j d p hd hp
    rcases setCall_cases hd with ⟨rfl, hd'⟩ | ⟨-, hd'⟩
    · exact (hptr d p hd' hp).2
    · exact hs.owned j d p hd' hp

/-- A call that no longer remembers an address. -/
theorem SendInv.setCall_forget (i : Nat)
    (hcall : s.CallOk i d d.pc) (hnone : d.pc.remembers = none) :
    SendInv (s.setCall i (some d)) := by
  refine hs.setCall i (fun e he => by cases he; exact hcall) ?_
  intro e p he hp
  cases he
  rw [hnone] at hp
  cases hp

/-- The state of a call by its program point. -/
theorem SendInv.call (hcall : s.call i = some c) (hpc : c.pc = pc) : s.CallOk i c pc := by
  rw [← hpc]
  exact hs.calls i c hcall

/-- A call that goes on remembering the same address. -/
theorem SendInv.setCall_same (i : Nat) (hold : s.call i = some c)
    (hcall : s.CallOk i d d.pc) (hsame : d.pc.remembers = c.pc.remembers) :
    SendInv (s.setCall i (some d)) := by
  refine hs.setCall i (fun e he => by cases he; exact hcall) ?_
  intro e p he hp
  cases he
  rw [hsame] at hp
  refine ⟨fun j e hj he => hs.distinct i j c e p (Ne.symm hj) hold he hp, ?_⟩
  exact hs.owned i c p hold hp

end

/-! ## Socket changes -/

theorem sendSide_eq (h : t'.sendSide = t.sendSide) :
    t'.txKind = t.txKind ∧ t'.txPtr = t.txPtr ∧ t'.txLen = t.txLen ∧ t'.txSeq = t.txSeq ∧
      t'.err = t.err ∧ t'.mss = t.mss := by
  simp only [TcpSock.sendSide, SendSide.mk.injEq] at h
  exact ⟨h.1, h.2.1, h.2.2.2.1, h.2.2.2.2.1, h.2.2.2.2.2.1, h.2.2.2.2.2.2.1⟩

/-- A covering acknowledgment of a slot with data acknowledges its range. -/
theorem acked_of_covers {a : Nat} (ha : a ∈ acks.drop s.since) (hkind : s.tsk.txKind = .data)
    (h : (ackCoversData s.tsk a || ackCoversFin s.tsk a) = true) : Acked acks s.inSlot := by
  refine ⟨a, ha, ?_⟩
  simpa [ackCoversData, ackCoversFin, hkind, inSlot] using h

section Socket

variable (hs : SendInv s) (hsub : s.acks <+: acks)

include hs hsub

/-- The slot stays as it is, or it holds no data after the step and everything that was put into it
is accounted for. -/
theorem SendInv.socket (hmss : 0 < t.mss ∧ t.mss < 65536)
    (hclosing : s.tsk.state.closing = true → t.state.closing = true)
    (herr : s.tsk.err ≠ none → t.err ≠ none)
    (hslot : s.tsk.txKind = .data ∧ t.sendSide = s.tsk.sendSide ∧ t.canSend = true ∨
      t.txKind ≠ .data ∧ (s.tsk.txKind = .data →
        Acked acks s.inSlot ∨ t.err ≠ none ∧ t.state.closing = true))
    (hfin : (t.txKind = .fin ∨ ∃ g ∈ out, g.finFlag = true) →
      t.state.closing = true ∧ ∀ k ∈ s.sent, Acked acks k) :
    SendInv { s with tsk := t, out := out, acks := acks } := by
  have hmono : ∀ k, Acked s.acks k → Acked acks k := fun k => Acked.mono hsub
  rcases hslot with ⟨hdata, hside, hopen⟩ | ⟨hne, hdata⟩
  · obtain ⟨hkind, hptr, hlen, hseq, -, -⟩ := sendSide_eq hside
    refine ⟨hmss, fun _ => hopen, fun _ => ?_, fun h => absurd (hkind.trans hdata) h, hfin,
      fun i c hc => (hs.calls i c hc).mono hmono ?_, hs.distinct, fun i c p hc hp hk htx => ?_,
      fun _ => (hs.since hdata).trans hsub.length_le⟩
    · obtain ⟨before, hsent, hbefore⟩ := hs.slot hdata
      exact ⟨before, hsent.trans (by rw [inSlot, ← hseq, ← hlen]; rfl),
        fun k hk => hmono k (hbefore k hk)⟩
    · rintro k (h | ⟨hk, ho, rfl⟩ | h)
      · exact .inl (hmono k h)
      · exact .inr (.inl ⟨hkind.trans hk, ho, by rw [inSlot, ← hseq, ← hlen]; rfl⟩)
      · exact .inr (.inr (herr h))
    · exact hs.owned i c p hc hp hdata (hptr.symm.trans htx)
  · refine ⟨hmss, fun h => absurd h hne, fun h => absurd h hne, fun _ => ?_, hfin,
      fun i c hc => (hs.calls i c hc).mono hmono ?_, hs.distinct, fun _ _ _ _ _ h => absurd h hne,
      fun h => absurd h hne⟩
    · by_cases hk : s.tsk.txKind = .data
      · obtain ⟨before, hsent, hbefore⟩ := hs.slot hk
        refine (hdata hk).imp (fun hlast => ?_) id
        intro k hk
        rw [hsent, mem_append, mem_singleton] at hk
        rcases hk with hk | rfl
        · exact hmono k (hbefore k hk)
        · exact hlast
      · refine (hs.settled hk).imp (fun h k hk => hmono k (h k hk)) ?_
        exact fun ⟨he, hc⟩ => ⟨herr he, hclosing hc⟩
    · rintro k (h | ⟨hk, ho, rfl⟩ | h)
      · exact .inl (hmono k h)
      · exact (hdata hk).imp id fun h => .inr h.1
      · exact .inr (.inr (herr h))

/-- The slot is empty after the step, and everything that was put into it is accounted for. -/
theorem SendInv.emptied (hmss : 0 < t.mss ∧ t.mss < 65536) (hkind : t.txKind = .none)
    (hclosing : s.tsk.state.closing = true → t.state.closing = true)
    (hout : ∀ g ∈ out, g.finFlag = true → g ∈ s.out) (herr : s.tsk.err ≠ none → t.err ≠ none)
    (hdata : s.tsk.txKind = .data →
      Acked acks s.inSlot ∨ t.err ≠ none ∧ t.state.closing = true) :
    SendInv { s with tsk := t, out := out, acks := acks } := by
  refine hs.socket hsub hmss hclosing herr (.inr ⟨by simp [hkind], hdata⟩) ?_
  rintro (h | ⟨g, hg, hfin⟩)
  · exact absurd (hkind.symm.trans h) (by decide)
  · obtain ⟨hc, hall⟩ := hs.fin (.inr ⟨g, hout g hg hfin, hfin⟩)
    exact ⟨hclosing hc, fun k hk => (hall k hk).mono hsub⟩

/-- An error empties the slot. -/
theorem SendInv.setError (e : Errno) (hout : ∀ g ∈ out, g.finFlag = true → g ∈ s.out) :
    SendInv { s with tsk := tcpSetError s.tsk e, out := out, acks := acks } := by
  have herr : (tcpSetError s.tsk e).err ≠ none := Option.some_ne_none e
  exact hs.emptied hsub hs.mss rfl (fun _ => rfl) hout (fun _ => herr) fun _ => .inr ⟨herr, rfl⟩

/-- The slot stays as it is. -/
theorem SendInv.same (hside : t.sendSide = s.tsk.sendSide)
    (hopen : s.tsk.canSend = true → t.canSend = true)
    (hclosing : s.tsk.state.closing = true → t.state.closing = true)
    (hout : ∀ g ∈ out, g.finFlag = true → g ∈ s.out ∨ s.tsk.txKind = .fin) :
    SendInv { s with tsk := t, out := out, acks := acks } := by
  obtain ⟨hkind, -, -, -, herr, hmss⟩ := sendSide_eq hside
  refine hs.socket hsub (hmss ▸ hs.mss) hclosing (fun h => by rwa [herr]) ?_ fun h => ?_
  · by_cases hk : s.tsk.txKind = .data
    · exact .inl ⟨hk, hside, hopen (hs.isOpen hk)⟩
    · exact .inr ⟨by rwa [hkind], fun h => absurd h hk⟩
  · have hfin : s.tsk.txKind = .fin ∨ ∃ g ∈ s.out, g.finFlag = true := by
      rcases h with h | ⟨g, hg, hfin⟩
      · exact .inl (hkind.symm.trans h)
      · exact (hout g hg hfin).elim (fun h => .inr ⟨g, h, hfin⟩) .inl
    obtain ⟨hc, hall⟩ := hs.fin hfin
    exact ⟨hclosing hc, fun k hk => (hall k hk).mono hsub⟩

/-- The effect of a segment, or of a timer tick, keeps the invariant. -/
theorem SendInv.effect {g : Segment} (heff : RcvEffect s.tsk g t)
    (hack : s.tsk.txKind = .data → g.ackFlag = true → g.ack ∈ acks.drop s.since)
    (hout : ∀ r ∈ out, r.finFlag = true → r ∈ s.out) :
    SendInv { s with tsk := t, out := out, acks := acks } := by
  cases heff with
  | same hside hopen hclosing =>
    exact hs.same hsub hside hopen hclosing fun r hr hfin => .inl (hout r hr hfin)
  | acked hflag hcover hside hopen hclosing =>
    obtain ⟨hkind, -, -, -, herr, hmss⟩ := sendSide_eq hside
    refine hs.emptied hsub (hmss ▸ hs.mss) hkind hclosing hout (fun h => ?_) ?_
    · rwa [herr]
    · exact fun hk => .inl (acked_of_covers (hack hk hflag) hk hcover)
  | reset e heq =>
    subst heq
    exact hs.setError hsub e hout
  | connected hstate hkind herr hmss =>
    obtain ⟨mss, hmss⟩ := hmss
    refine hs.emptied hsub ?_ hkind ?_ hout (fun h => by rwa [herr]) ?_
    · rw [hmss]
      exact ⟨chooseMss_pos mss, lt_of_le_of_lt (chooseMss_le mss) (by decide)⟩
    · intro hc
      rw [hstate] at hc
      cases hc
    -- a connection that is not open has no data in its slot
    intro hk
    have := hs.isOpen hk
    rw [TcpSock.canSend_iff, hstate] at this
    rcases this with h | h <;> cases h

end Socket

/-- A `FIN` is sent again only from a slot that holds one. -/
theorem retransmit_finFlag (hkind : t.txKind ≠ .none) (hfin : t.retransmit.finFlag = true) :
    t.txKind = .fin := by
  cases hk : t.txKind with
  | none => exact absurd hk hkind
  | fin => rfl
  | syn | data => simp [TcpSock.retransmit, hk, tcpBuildSegment] at hfin

/-- Closing a connection whose slot holds no data keeps the invariant: everything sent is
acknowledged. -/
theorem SendInv.startFin (hs : SendInv s) (hkind : s.tsk.txKind ≠ .data)
    (hsend : s.tsk.canSend = true) (hfin : t.txKind = .fin) (hmss : t.mss = s.tsk.mss)
    (herr : t.err = s.tsk.err) (hclosing : t.state.closing = true) :
    SendInv { s with tsk := t, out := out } := by
  have hall : ∀ k ∈ s.sent, Acked s.acks k := by
    refine (hs.settled hkind).resolve_right fun ⟨_, hc⟩ => ?_
    rw [closing_not_canSend hc] at hsend
    cases hsend
  exact hs.socket prefix_rfl (hmss ▸ hs.mss) (fun _ => hclosing) (fun h => by rwa [herr])
    (.inr ⟨by simp [hfin], fun h => absurd h hkind⟩) fun _ => ⟨hclosing, hall⟩

theorem tcpStartFin_closing (t : TcpSock) (now : Nat) :
    (tcpStartFin t now).state.closing = true := by
  simp only [tcpStartFin]
  split
  · rfl
  · rfl

/-- A release starts closing an open connection and leaves the slot of a closing one alone. -/
theorem tcpReleaseSock_orphaned {now : Nat} {o : Option Segment}
    (h : tcpReleaseSock t now = .orphaned t' o) :
    (t.canSend = true ∧ t'.sendSide = (tcpStartFin t now).sendSide ∧
        t'.state = (tcpStartFin t now).state) ∨
      t'.sendSide = t.sendSide ∧ t'.state = t.state ∧ o = none := by
  unfold tcpReleaseSock at h
  split at h
  · rename_i hsend
    cases h
    exact .inl ⟨hsend, rfl, rfl⟩
  split at h
  · cases h
    exact .inr ⟨rfl, rfl, rfl⟩
  · cases h

theorem canSend_congr (h : t'.state = t.state) (hsend : t.canSend = true) : t'.canSend = true := by
  rw [TcpSock.canSend_iff] at hsend ⊢
  rwa [h]

/-! ## Steps of a call -/

/-- Filling the free slot of an open connection keeps the invariant. -/
theorem SendInv.fill (hs : SendInv s) (now : Nat) (hcall : s.call i = some c)
    (hptr : c.pc.remembers = some ptr) (hsettled : s.Settled c)
    (hlen : c.off + data.length ≤ c.buf.length ∧ data.length < 65536) (hkind : s.tsk.txKind = .none)
    (hsend : s.tsk.canSend = true) :
    SendInv (s.afterSlot i c (.filled ptr s.tsk.sndNxt s.tsk.rcvNxt data,
      tcpFillTx s.tsk ptr data now)) := by
  have hu16 : u16 data.length = data.length := u16_of_lt hlen.2
  have hnotClosing : s.tsk.state.closing ≠ true := by
    intro hc
    rw [closing_not_canSend hc] at hsend
    cases hsend
  have hall : ∀ k ∈ s.sent, Acked s.acks k :=
    (hs.settled (by simp [hkind])).resolve_right fun h => hnotClosing h.2
  refine ⟨hs.mss, fun _ => hsend, fun _ => ⟨s.sent, ?_, hall⟩, fun h => absurd rfl h, ?_, ?_,
    hs.setCall_distinct fun d p hd hp j e hj he => ?_, ?_, fun _ => le_rfl⟩
  · show s.sent ++ [_] = s.sent ++ [⟨s.tsk.sndNxt, u16 data.length, s.acks.length⟩]
    rw [hu16]
  · rintro (h | ⟨g, hg, hfin⟩)
    · cases h
    · exact absurd (hs.fin (.inr ⟨g, hg, hfin⟩)).1 hnotClosing
  · intro j d hd
    rcases setCall_cases hd with ⟨rfl, hd'⟩ | ⟨-, hd'⟩
    · cases hd'
      obtain ⟨hacked, hbytes, -⟩ := hsettled
      refine ⟨c.chunks, ⟨s.tsk.sndNxt, data.length, s.acks.length⟩, rfl, hacked,
        .inr (.inl ⟨rfl, rfl, ?_⟩), ?_, hlen.1⟩
      · show _ = (⟨s.tsk.sndNxt, u16 data.length, s.acks.length⟩ : Chunk)
        rw [hu16]
      · rw [chunkBytes_append, hbytes]
    · refine SendSys.CallOk.mono (fun _ h => ?_) ?_ (hs.calls j d hd')
      · exact h
      rintro k (h | ⟨hk, -, -⟩ | h)
      · exact .inl h
      · rw [hkind] at hk
        cases hk
      · exact .inr (.inr h)
  · -- the call goes on remembering the address it had
    cases hd
    exact hs.distinct i j c e p (Ne.symm hj) hcall he (hptr.trans hp)
  · intro j d p hd hp _ htx
    rcases setCall_cases hd with ⟨rfl, -⟩ | ⟨hj, hd⟩
    · rfl
    obtain rfl : ptr = p := Option.some.inj htx
    exact absurd hp (hs.distinct i j c d ptr (Ne.symm hj) hcall hd hptr)

/-- A section that tries to fill the slot keeps the invariant. -/
theorem SendInv.slotSection (hs : SendInv s) (now : Nat)
    (hcall : s.call i = some c) (hptr : c.pc.remembers = some ptr)
    (hok : s.Settled c ∧ c.off + data.length ≤ c.buf.length ∧ data.length < 65536)
    {r : SendPc × TcpSock}
    (hr : (∃ e, (s.tsk.err ≠ none ∨ s.tsk.canSend = false) ∧ r = (.done (.error e), s.tsk)) ∨
      r = sendSlot s.tsk ptr data now) : SendInv (s.afterSlot i c r) := by
  have herror : ∀ e, SendInv (s.afterSlot i c (.done (.error e), s.tsk)) :=
    fun _ => hs.setCall_forget i trivial rfl
  rcases hr with ⟨e, -, rfl⟩ | rfl
  · exact herror e
  rcases sendSlot_cases s.tsk ptr data now with ⟨e, -, h⟩ | ⟨-, h⟩ | ⟨-, hkind, hsend, h⟩
  · rw [h]
    exact herror e
  · rw [h]
    exact hs.setCall_same i hcall hok hptr.symm
  · rw [h]
    exact hs.fill now hcall hptr hok.1 hok.2 hkind hsend

theorem SendInv.undo (hs : SendInv s) {seq : Nat} {e : Errno} (hcall : s.call i = some c)
    (hpc : c.pc = .failed ptr seq e) :
    SendInv { s.setCall i (some { c with pc := .done (.error e) }) with
      tsk := tcpUndoTx s.tsk ptr seq
      sent := if s.tsk.txKind = .data ∧ s.tsk.txPtr = some ptr then s.sent.dropLast
              else s.sent } := by
  have hdone : SendInv (s.setCall i (some { c with pc := .done (.error e) })) :=
    hs.setCall_forget i trivial rfl
  unfold tcpUndoTx
  split
  · rename_i hown
    -- the slot belongs to this call, so no other call waits for it
    have howner : s.owner = i := hs.owned i c ptr hcall (by rw [hpc]; rfl) hown.1 hown.2
    obtain ⟨before, hsent, hbefore⟩ := hs.slot hown.1
    have hdrop : s.sent.dropLast = before := by rw [hsent, dropLast_concat]
    have hnotClosing : s.tsk.state.closing ≠ true := by
      intro hc
      have := hs.isOpen hown.1
      rw [closing_not_canSend hc] at this
      cases this
    refine ⟨hs.mss, fun h => (by cases h), fun h => (by cases h), fun _ => .inl ?_, ?_, ?_,
      hdone.distinct, fun _ _ _ _ _ h => (by cases h), fun h => (by cases h)⟩
    · rw [hdrop]
      exact hbefore
    · rintro (h | ⟨g, hg, hfin⟩)
      · cases h
      · exact absurd (hs.fin (.inr ⟨g, hg, hfin⟩)).1 hnotClosing
    intro j d hd
    rcases setCall_cases hd with ⟨rfl, hd'⟩ | ⟨hj, hd'⟩
    · cases hd'
      trivial
    refine SendSys.CallOk.mono (fun _ h => ?_) ?_ (hs.calls j d hd')
    · exact h
    rintro k (h | ⟨-, ho, -⟩ | h)
    · exact .inl h
    · exact absurd (ho.symm.trans howner) hj
    · exact .inr (.inr h)
  · exact hdone

section Operations

variable (hs : SendInv s)

include hs

theorem SendInv.stepTop {alloc : Option Nat} {copyOk : Bool} (hcall : s.call i = some c)
    (hpc : c.pc = .top) (hfresh : ∀ ptr ∈ alloc, s.Fresh ptr)
    (hcare : (SendOp.top i alloc copyOk).Careful s) :
    SendInv (s.setCall i (some { c with pc := sendTop s.tsk c.buf c.off alloc copyOk })) := by
  have hsettled : s.Settled c := hs.call hcall hpc
  rcases sendTop_cases s.tsk c.buf c.off alloc copyOk hs.mss.1 with
    ⟨e, -, htop⟩ | ⟨hoff, htop⟩ | ⟨ptr, data, rfl, hlen, hmss, -, -, htop⟩
  · rw [htop]
    exact hs.setCall_forget i trivial rfl
  · rw [htop]
    have hend : c.off = c.buf.length := Nat.le_antisymm hsettled.2.2 hoff
    exact hs.setCall_forget i ⟨rfl, hend, hsettled⟩ rfl
  rw [htop]
  refine hs.setCall i (fun d hd => ?_) ?_
  · cases hd
    exact ⟨hsettled, hlen, Nat.lt_of_le_of_lt hmss hs.mss.2⟩
  intro d p hd hp
  cases hd
  cases hp
  exact ⟨hcare, fun _ htx => absurd htx (hfresh ptr rfl).1⟩

/-- A call that waits goes on when the slot holds no data and there is no error: its range is
acknowledged then. -/
theorem SendInv.stepWait {n : Nat} (hcall : s.call i = some c) (hpc : c.pc = .waiting n) :
    SendInv (s.setCall i (some { c with pc := (sendWait s.tsk c.off n).1
                                        off := (sendWait s.tsk c.off n).2 })) := by
  obtain ⟨done, k, hchunks, hdone, hpend, hbytes, hle⟩ := hs.call hcall hpc
  refine hs.setCall_forget i ?_ ?_
  · unfold sendWait
    split
    · trivial
    rename_i herr
    split
    · exact ⟨done, k, hchunks, hdone, hpend, hbytes, hle⟩
    rename_i hkind
    have hk : Acked s.acks k := by
      rcases hpend with h | ⟨h, -, -⟩ | h
      · exact h
      · exact absurd h hkind
      · exact absurd herr h
    refine ⟨?_, hbytes, hle⟩
    show ∀ x ∈ c.chunks, Acked s.acks x
    rw [hchunks, forall_mem_append, forall_mem_singleton]
    exact ⟨hdone, hk⟩
  · unfold sendWait
    split
    · rfl
    · split <;> rfl

theorem SendInv.stepSegment (g : Segment) (now : Nat) :
    SendInv { s with tsk := (tcpRcvSock s.tsk g now).tsk
                     out := s.out ++ (tcpRcvSock s.tsk g now).reply.toList
                     acks := s.acks ++ if g.ackFlag then [g.ack] else [] } := by
  refine hs.effect (prefix_append _ _) (tcpRcvSock_effect s.tsk g now) ?_ ?_
  · intro hk hflag
    rw [drop_append_of_le_length (hs.since hk), if_pos hflag]
    exact mem_append_right _ (mem_singleton_self _)
  intro r hr hfin
  rcases mem_append.1 hr with hr | hr
  · exact hr
  · have := tcpRcvSock_reply s.tsk g now r (Option.mem_toList.1 hr)
    rw [this] at hfin
    cases hfin

theorem SendInv.stepTick {now : Nat} {room built : Bool} {o : Option Segment}
    (htick : tcpTimerSock s.tsk now room built = .kept t o) :
    SendInv { s with tsk := t, out := s.out ++ o.toList } := by
  rcases tcpTimerSock_kept htick with ⟨e, -, rfl, rfl⟩ | ⟨⟨retries, deadline, rfl⟩, hout⟩
  · refine hs.setError prefix_rfl e fun g hg _ => ?_
    simpa using hg
  · refine hs.same prefix_rfl rfl id id ?_
    intro g hg hf
    rcases mem_append.1 hg with hg | hg
    · exact .inl hg
    · obtain ⟨hkind, rfl⟩ := hout g (Option.mem_toList.1 hg)
      exact .inr (retransmit_finFlag hkind hf)

theorem SendInv.stepRelease {now : Nat} {o : Option Segment} (hkind : s.tsk.txKind ≠ .data)
    (hrel : tcpReleaseSock s.tsk now = .orphaned t o) :
    SendInv { s with tsk := t, out := s.out ++ o.toList } := by
  rcases tcpReleaseSock_orphaned hrel with ⟨hsend, hside, hstate⟩ | ⟨hside, hstate, rfl⟩
  · obtain ⟨hfin, -, -, -, herr, hmss⟩ := sendSide_eq hside
    refine hs.startFin hkind hsend hfin hmss herr ?_
    rw [hstate]
    exact tcpStartFin_closing s.tsk now
  · refine hs.same prefix_rfl hside (canSend_congr hstate) (fun h => by rwa [hstate]) ?_
    exact fun g hg _ => .inl (by simpa using hg)

end Operations

/-- Every operation that meets the condition keeps the invariant. -/
theorem SendInv.step {op : SendOp} (h : SendStep s op s') (hcare : op.Careful s) (hs : SendInv s) :
    SendInv s' := by
  cases h with
  | start i buf _ _ => exact hs.setCall_forget i ⟨by simp, rfl, Nat.zero_le _⟩ rfl
  | top i c alloc copyOk _ hcall hpc hfresh => exact hs.stepTop hcall hpc hfresh hcare
  | lock i c ptr data now _ hcall hpc =>
    exact hs.slotSection now hcall (by rw [hpc]; rfl) (hs.call hcall hpc)
      (sendLock_cases s.tsk ptr data now)
  | wake i c ptr data now _ hcall hpc =>
    exact hs.slotSection now hcall (by rw [hpc]; rfl) (hs.call hcall hpc) (.inr rfl)
  | emit i c ptr seq ack data bytes _ hcall hpc _ _ =>
    have hcalls : SendInv (s.setCall i (some { c with pc := .waiting data.length })) :=
      hs.setCall_forget i (by have hok := hs.call hcall hpc; exact hok) rfl
    refine hcalls.same prefix_rfl rfl id id fun g hg hfin => ?_
    rcases mem_append.1 hg with hg | hg
    · exact .inl hg
    · rw [mem_singleton.1 hg] at hfin
      cases hfin
  | emitFail i c ptr seq ack data e _ hcall hpc =>
    exact hs.setCall_same i hcall trivial (by rw [hpc]; rfl)
  | undo i c ptr seq e _ hcall hpc => exact hs.undo hcall hpc
  | wait i c n _ hcall hpc => exact hs.stepWait hcall hpc
  | ret i c r hcall hpc => exact hs.setCall i nofun nofun
  | segment g now _ => exact hs.stepSegment g now
  | tick now room built t o _ htick => exact hs.stepTick htick
  | tickFree now room built _ htick => exact hs.book false s.attached
  | shutdownRd _ _ => exact hs.same prefix_rfl rfl id id fun g hg _ => .inl hg
  | shutdownWr now _ _ =>
    by_cases hsend : s.tsk.canSend = true
    · rw [tcpShutdownWr, if_pos hsend]
      exact hs.startFin hcare hsend rfl rfl rfl (tcpStartFin_closing s.tsk now)
    · rw [tcpShutdownWr, if_neg hsend]
      refine hs.same prefix_rfl rfl id id fun g hg _ => .inl ?_
      simpa using hg
  | release now t o _ _ hrel => exact (hs.stepRelease hcare.1 hrel).book s.live false
  | releaseFree now _ _ _ => exact hs.book false false
  | xmit g before after hout =>
    refine hs.same prefix_rfl rfl id id fun r hr _ => .inl ?_
    rw [hout]
    simp only [mem_append, mem_cons] at hr ⊢
    tauto

/-- And so does every run. -/
theorem CarefulRun.inv (hs : SendInv s) (hrun : CarefulRun s s') : SendInv s' := by
  refine Run.invariant ?_ hrun hs
  rintro a b ⟨op, hop, hcare⟩ ha
  exact ha.step hop hcare

theorem SendSys.Initial.inv (hs : s.Initial) : SendInv s := by
  refine ⟨hs.mss, fun h => absurd h hs.kind.1, fun h => absurd h hs.kind.1, fun _ => .inl ?_, ?_,
    ?_, ?_, ?_, fun h => absurd h hs.kind.1⟩
  · simp [hs.sent]
  · rintro (h | ⟨g, hg, -⟩)
    · exact absurd h hs.kind.2
    · rw [hs.out] at hg
      cases hg
  · intro i c hc
    rw [hs.calls i] at hc
    cases hc
  · intro i j c d p _ hc
    rw [hs.calls i] at hc
    cases hc
  · intro i c p hc
    rw [hs.calls i] at hc
    cases hc

/-- The invariant rules out what an operation must not do. -/
theorem SendInv.sound {op : SendOp} (hs : SendInv s) (h : SendStep s op s') : op.Sound s := by
  cases h with
  | ret i c r hcall hpc =>
    cases r with
    | error e => trivial
    | ok n =>
      intro d hd
      rw [hcall, Option.some.injEq] at hd
      subst hd
      obtain ⟨hn, hend, hacked, hbytes, -⟩ := hs.call hcall hpc
      exact ⟨hn, hbytes.trans hend, hacked⟩
  | xmit g before after hout =>
    intro hfin k hk
    exact .inl ((hs.fin (.inr ⟨g, by simp [hout], hfin⟩)).2 k hk)
  | _ => trivial

/-! ## Calls that send one byte -/

/-- An established connection on which nothing has been sent. -/
def SendSys.fresh : SendSys where
  tsk := .withQueue []
  live := true
  attached := true
  call := fun _ => none
  out := []
  acks := []
  sent := []
  owner := 0
  since := 0

theorem SendSys.fresh_initial : fresh.Initial := ⟨fun _ => rfl, rfl, rfl, by decide, by decide⟩

/-- The call `i` has sent one byte and waits for the acknowledgment. -/
def SendSys.byteSent (s : SendSys) (i ptr : Nat) : SendSys :=
  { s.setCall i (some ⟨[7], 0, .waiting 1, [⟨s.tsk.sndNxt, 1, s.acks.length⟩]⟩) with
    tsk := tcpFillTx s.tsk ptr [7] 0
    out := s.out ++ [dataSegment (tcpFillTx s.tsk ptr [7] 0) s.tsk.sndNxt s.tsk.rcvNxt [7]]
    sent := s.sent ++ [⟨s.tsk.sndNxt, 1, s.acks.length⟩]
    owner := i
    since := s.acks.length }

/-- A call comes that far on an open connection with a free slot, if no call knows the address. -/
theorem SendSys.byteSent_reachable (hlive : s.live = true) (hattached : s.attached = true)
    (hidle : s.call i = none) (herr : s.tsk.err = none) (hsend : s.tsk.canSend = true)
    (hkind : s.tsk.txKind = .none) (hmss : 0 < s.tsk.mss) (htx : s.tsk.txPtr ≠ some ptr)
    (hptr : ∀ j c, s.call j = some c → c.pc.remembers ≠ some ptr) :
    CarefulRun s (s.byteSent i ptr) := by
  have hset {x y : Option SendCall} : (s.setCall i x).setCall i y = s.setCall i y := by
    simp [setCall]
  have hself {x : Option SendCall} : (s.setCall i x).call i = x := by simp [setCall]
  have hone : sendTop s.tsk [7] 0 (some ptr) true = .copied ptr [7] := by
    have : min 1 s.tsk.mss = 1 := Nat.min_eq_left hmss
    simp [sendTop, sendChunk, this]
  have hfill : sendLock s.tsk ptr [7] 0 =
      (.filled ptr s.tsk.sndNxt s.tsk.rcvNxt [7], tcpFillTx s.tsk ptr [7] 0) := by
    simp [sendLock, sendSlot, herr, hsend, hkind]
  have hother : ∀ j c, (s.setCall i (some ⟨[7], 0, .top, []⟩)).call j = some c →
      c.pc.remembers ≠ some ptr ∧ c.pc.buffer ≠ some ptr := by
    intro j c hc
    rcases setCall_cases hc with ⟨-, hc⟩ | ⟨-, hc⟩
    · cases hc
      exact ⟨(Option.some_ne_none ptr).symm, (Option.some_ne_none ptr).symm⟩
    · refine ⟨hptr j c hc, fun h => hptr j c hc ?_⟩
      cases hpc : c.pc <;> simp_all [SendPc.buffer, SendPc.remembers]
  have htop := SendStep.top (s.setCall i (some ⟨[7], 0, .top, []⟩)) i _ (some ptr) true hlive hself
    rfl (by rintro _ ⟨⟩; exact ⟨htx, fun j c hc => (hother j c hc).2⟩)
  have hlock := SendStep.lock (s.setCall i (some ⟨[7], 0, .copied ptr [7], []⟩)) i _ ptr [7] 0 hlive
    hself rfl
  rw [hset] at htop
  simp only [show (s.setCall i (some ⟨[7], 0, .top, []⟩)).tsk = s.tsk from rfl, hone] at htop
  simp only [show (s.setCall i (some ⟨[7], 0, .copied ptr [7], []⟩)).tsk = s.tsk from rfl,
    hfill] at hlock
  have hemit := SendStep.emit ((s.setCall i (some ⟨[7], 0, .copied ptr [7], []⟩)).afterSlot i
    ⟨[7], 0, .copied ptr [7], []⟩ (.filled ptr s.tsk.sndNxt s.tsk.rcvNxt [7],
      tcpFillTx s.tsk ptr [7] 0)) i _ ptr s.tsk.sndNxt s.tsk.rcvNxt [7] [7] hlive
    (Function.update_self ..) rfl rfl fun _ => rfl
  refine .tail (.tail (.tail (.single ⟨_, .start s i [7] hidle hattached, trivial⟩)
    ⟨_, htop, fun j c _ hc => (hother j c hc).1⟩) ⟨_, hlock, trivial⟩) ⟨.emit i [7], ?_, trivial⟩
  simpa [byteSent, afterSlot, setCall] using hemit

/-- An acknowledgment comes. -/
def SendSys.acked (s : SendSys) (ack : Nat) : SendSys :=
  let r := tcpRcvSock s.tsk (tcpBuildSegment (.withQueue []) 1 ack false true false [] false) 0
  { s with tsk := r.tsk, out := s.out ++ r.reply.toList, acks := s.acks ++ [ack] }

theorem SendSys.acked_step (hlive : s.live = true) (ack : Nat) :
    CarefulRun s (s.acked ack) := .single ⟨_, .segment s _ 0 hlive, trivial⟩

/-- The call `0` has sent one byte. -/
def SendSys.oneByteSent : SendSys := fresh.byteSent 0 100

theorem SendSys.oneByteSent_reachable : CarefulRun fresh oneByteSent :=
  byteSent_reachable rfl rfl rfl rfl rfl rfl (by decide) nofun nofun

/-- The call `1` has sent a byte too, after the acknowledgment of the first and before the call `0`
has returned. -/
def SendSys.twoSenders : SendSys := (oneByteSent.acked 2).byteSent 1 101

theorem SendSys.twoSenders_reachable : CarefulRun fresh twoSenders := by
  refine (oneByteSent_reachable.trans (acked_step rfl 2)).trans ?_
  refine byteSent_reachable rfl rfl rfl rfl rfl rfl (by decide) (by decide) fun j c hc => ?_
  rcases setCall_cases hc with ⟨-, hc⟩ | ⟨-, hc⟩
  · cases hc
    exact nofun
  · cases hc

/-- A shutdown. -/
def SendSys.shut (s : SendSys) : SendSys :=
  { s with tsk := (tcpShutdownWr s.tsk 0).1, out := s.out ++ (tcpShutdownWr s.tsk 0).2.toList }

/-- Once the slot holds no data and there is no error, the call returns the length of its buffer,
whatever the reason. -/
theorem SendSys.oneByteSent_returns (hlive : s.live = true)
    (hcall : s.call 0 = some ⟨[7], 0, .waiting 1, [⟨1, 1, 0⟩]⟩) (herr : s.tsk.err = none)
    (hkind : s.tsk.txKind ≠ .data) :
    ∃ s1 s', CarefulRun s s1 ∧ SendStep s1 (.ret 0 (.ok 1)) s' ∧
      s1 = s.setCall 0 (some ⟨[7], 1, .done (.ok 1), [⟨1, 1, 0⟩]⟩) := by
  have hwait : SendStep s (.wait 0) (s.setCall 0 (some ⟨[7], 1, .top, [⟨1, 1, 0⟩]⟩)) := by
    have := SendStep.wait s 0 ⟨[7], 0, .waiting 1, [⟨1, 1, 0⟩]⟩ 1 hlive hcall rfl
    simpa [sendWait, herr, hkind] using this
  have htop := SendStep.top (s.setCall 0 (some ⟨[7], 1, .top, [⟨1, 1, 0⟩]⟩)) 0
    ⟨[7], 1, .top, [⟨1, 1, 0⟩]⟩ none true hlive (by simp [setCall]) rfl (by simp)
  refine ⟨_, _, .tail (.single ⟨_, hwait, trivial⟩) ⟨_, htop, trivial⟩,
    .ret _ 0 ⟨[7], 1, .done (.ok 1), [⟨1, 1, 0⟩]⟩ (.ok 1) ?_ rfl, ?_⟩
  · simp [setCall, sendTop]
  · simp [setCall, sendTop]

/-! ## The contract -/

/-- Success means acknowledged. In every run whose operations all meet the condition, from a socket
on which no call runs, a call of `tcp_sendmsg` that returns the length of its buffer has had every
range of its sequence numbers acknowledged, and a `FIN` is passed on only when all data put into the
transmit slot before it is acknowledged or still in the slot. -/
theorem sendmsg_acked {s₀ s s' : SendSys} (hinit : s₀.Initial) (hrun : CarefulRun s₀ s)
    {op : SendOp} (hstep : SendStep s op s') : op.Sound s :=
  (CarefulRun.inv hinit.inv hrun).sound hstep

/-- A call that sends one byte, gets the acknowledgment and returns one. -/
theorem sendmsg_acked_one_byte :
    ∃ s s', CarefulRun SendSys.fresh s ∧ SendStep s (.ret 0 (.ok 1)) s' ∧
      (SendOp.ret 0 (.ok 1)).Sound s := by
  obtain ⟨s, s', hrun, hret, -⟩ := oneByteSent_returns (s := oneByteSent.acked 2) rfl rfl rfl
    (by decide)
  have hreach : CarefulRun fresh s := (oneByteSent_reachable.trans (acked_step rfl 2)).trans hrun
  exact ⟨s, s', hreach, hret, sendmsg_acked fresh_initial hreach hret⟩

/-- A shutdown while the byte is in the slot. The call returns one although nothing was
acknowledged, and the `FIN` is passed on with the byte neither acknowledged nor in the slot. -/
theorem sendmsg_shutdown_unacked :
    ∃ s s', SendRun SendSys.fresh s ∧ SendStep s (.ret 0 (.ok 1)) s' ∧
      ¬ (SendOp.ret 0 (.ok 1)).Sound s ∧
      ∃ g s'', SendStep s (.xmit g) s'' ∧ ¬ (SendOp.xmit g).Sound s := by
  have hshut := SendStep.shutdownWr .oneByteSent 0 rfl rfl
  obtain ⟨s, s', hrun, hret, rfl⟩ := oneByteSent_returns
    (s := oneByteSent.shut) rfl rfl rfl (by decide)
  refine ⟨_, s', ?_, hret, ?_, oneByteSent.tsk.finSegment, _, .xmit _ _ oneByteSent.out [] rfl, ?_⟩
  · exact .trans (.tail oneByteSent_reachable.sendRun ⟨_, hshut⟩) hrun.sendRun
  · intro hsound
    obtain ⟨-, -, hacked⟩ := hsound ⟨[7], 1, .done (.ok 1), [⟨1, 1, 0⟩]⟩ (by simp [setCall])
    obtain ⟨a, ha, -⟩ := hacked ⟨1, 1, 0⟩ (by simp)
    cases ha
  · intro hsound
    rcases hsound rfl ⟨1, 1, 0⟩ (mem_singleton_self _) with ⟨a, ha, -⟩ | ⟨hkind, -⟩
    · cases ha
    · cases hkind

/-- However many tasks send on a socket: while it has no error, all that was put into the transmit
slot but the last range is acknowledged, and a `FIN` exists only when everything is. -/
theorem senders_stop_and_wait {s₀ s : SendSys} (hinit : s₀.Initial) (hrun : CarefulRun s₀ s) :
    (s.tsk.err = none → ∀ k ∈ s.sent.dropLast, Acked s.acks k) ∧
      (s.tsk.txKind = .fin ∨ (∃ g ∈ s.out, g.finFlag = true) → ∀ k ∈ s.sent, Acked s.acks k) := by
  have hinv := CarefulRun.inv hinit.inv hrun
  refine ⟨fun herr k hk => ?_, fun hfin => (hinv.fin hfin).2⟩
  by_cases hkind : s.tsk.txKind = .data
  · obtain ⟨before, hsent, hacked⟩ := hinv.slot hkind
    rw [hsent, dropLast_concat] at hk
    exact hacked k hk
  · rcases hinv.settled hkind with hacked | ⟨hne, -⟩
    · exact hacked k (dropLast_subset _ hk)
    · exact absurd herr hne

/-- Two calls, of which the second begins before the first returns; then its byte is acknowledged
as well, and the connection is shut down. -/
theorem senders_stop_and_wait_two :
    SendSys.twoSenders.sent = [⟨1, 1, 0⟩, ⟨2, 1, 1⟩] ∧ Acked [2] ⟨1, 1, 0⟩ ∧
      (SendSys.twoSenders.acked 3).shut.tsk.txKind = .fin ∧
      ∀ k ∈ SendSys.twoSenders.sent, Acked [2, 3] k := by
  have hfin : CarefulRun .fresh (SendSys.twoSenders.acked 3).shut := by
    refine (twoSenders_reachable.trans (acked_step rfl 3)).tail ⟨_, .shutdownWr _ 0 rfl rfl, ?_⟩
    show _ ≠ _
    decide
  exact ⟨rfl, (senders_stop_and_wait fresh_initial twoSenders_reachable).1 rfl _
    (mem_singleton_self _), rfl, (senders_stop_and_wait fresh_initial hfin).2 (.inl rfl)⟩

end BrkKernel.Net
