import BrkKernel.Lib.Actors
import BrkKernel.Lib.Serial
import BrkKernel.Net.TcpRecv

/-!
# A TCP connection as a byte stream

Two endpoints of one established connection and the network between them. One side runs a sequence
of `tcp_sendmsg` calls, the other reads with buffers of at least `TCP_MSS` bytes; segments are lost,
duplicated, delayed and reordered, and the timers fire at any time. Positions in the stream are
natural numbers; a segment in flight carries the position that its sequence number (or, towards the
sender, its acknowledgment number) stands for, and none is delivered once this number is used again.

`stream_in_order` says that what the reader has got is a beginning of what the sender's callers
passed, and that a call that returns its length has all of its bytes queued at the receiver. It
holds in every run in which no acknowledgment is delivered to a sender that has sent more than
`2 ^ 31` bytes since, and in which a segment is first sent before the connection has timed out.
`stream_old_ack` is a run that breaks it: the acknowledgment of the first segment comes back after
more than `2 ^ 31` bytes and is taken for one of the segment in the slot.
-/

set_option autoImplicit false

namespace BrkKernel.Net

open Lib List

/-- A segment in the network, with the stream position that its number stands for. -/
structure Flight where
  pos : Nat
  seg : Segment

/-- A running call of `tcp_sendmsg`. -/
structure SendFrame where
  buf : List UInt8
  off : Nat
  pc : SendPc

/-- The sender `a`, the receiver `b`, and the network. The last four fields only record: the bytes
passed to the sender's calls, the bytes queued at the receiver, the bytes returned to its callers,
and how many bytes the sender has put into its slot. -/
structure StreamSys where
  a : TcpSock
  b : TcpSock
  call : Option SendFrame
  toA : List Flight
  toB : List Flight
  written : List UInt8
  queued : List UInt8
  returned : List UInt8
  sent : Nat

open StreamSys

variable {f : Flight} {buf data before : List UInt8} {iss n now : Nat} {c : SendFrame}
  {s s' : StreamSys} {t b a : TcpSock} {o : Option Segment} {toB : List Flight} {pc : SendPc}
  {room : Bool}

/-- The number of bytes by which a section has advanced the sender. -/
def SendPc.filledBytes : SendPc → Nat
  | .filled _ _ _ data => data.length
  | _ => 0

/-- The call goes on after a section that may have filled the slot. -/
def StreamSys.afterSlot (s : StreamSys) (c : SendFrame) (r : SendPc × TcpSock) : StreamSys :=
  { s with a := r.2, call := some { c with pc := r.1 }, sent := s.sent + r.1.filledBytes }

/-- A segment arrives at the receiver. -/
def StreamSys.receive (s : StreamSys) (g : Segment) (now : Nat) : StreamSys :=
  { s with
    b := (tcpRcvSock s.b g now).tsk
    queued := s.queued ++ if (tcpRcvSock s.b g now).queued then g.payload else []
    toA := s.toA ++ (tcpRcvSock s.b g now).reply.toList.map
      (⟨(s.queued ++ if (tcpRcvSock s.b g now).queued then g.payload else []).length, ·⟩) }

/-- What can happen. -/
inductive StreamOp where
  | start (buf : List UInt8)
  | top (ptr : Nat)
  | lock (now : Nat)
  | wake (now : Nat)
  | emit (bytes : List UInt8)
  | wait
  | ret (r : Except Errno Nat)
  | deliverA (f : Flight) (now : Nat)
  | deliverB (f : Flight) (now : Nat)
  | tickA (now : Nat) (room : Bool)
  | tickB (now : Nat) (room : Bool)
  | recv (len : Nat) (nonblock : Bool)
  | lose (toA toB : List Flight)

/-- The steps of the connection. Allocations succeed and the user's buffers are readable. A
delivered segment stays in the network, as it may have been duplicated; segments are removed by
`lose`. -/
inductive StreamStep : StreamSys → StreamOp → StreamSys → Prop where
  | start (s : StreamSys) (buf : List UInt8) (hidle : s.call = none) :
      StreamStep s (.start buf)
        { s with call := some ⟨buf, 0, .top⟩, written := s.written ++ buf }
  | top (s : StreamSys) (c : SendFrame) (ptr : Nat) (hcall : s.call = some c) (hpc : c.pc = .top) :
      StreamStep s (.top ptr)
        { s with call := some { c with pc := sendTop s.a c.buf c.off (some ptr) true } }
  | lock (s : StreamSys) (c : SendFrame) (ptr : Nat) (data : List UInt8) (now : Nat)
      (hcall : s.call = some c) (hpc : c.pc = .copied ptr data) :
      StreamStep s (.lock now) (s.afterSlot c (sendLock s.a ptr data now))
  | wake (s : StreamSys) (c : SendFrame) (ptr : Nat) (data : List UInt8) (now : Nat)
      (hcall : s.call = some c) (hpc : c.pc = .sleeping ptr data) :
      StreamStep s (.wake now) (s.afterSlot c (sendSlot s.a ptr data now))
  /-- The first transmission reads the copy without the lock: once the slot has been cleared, the
  copy is freed and may hold anything. -/
  | emit (s : StreamSys) (c : SendFrame) (ptr seq ack : Nat) (data bytes : List UInt8)
      (hcall : s.call = some c) (hpc : c.pc = .filled ptr seq ack data)
      (hlen : bytes.length = data.length) (hbytes : s.a.txPtr = some ptr → bytes = s.a.txData) :
      StreamStep s (.emit bytes)
        { s with call := some { c with pc := .waiting data.length }
                 toB := s.toB ++ [⟨s.sent - data.length, dataSegment s.a seq ack bytes⟩] }
  | wait (s : StreamSys) (c : SendFrame) (n : Nat) (hcall : s.call = some c)
      (hpc : c.pc = .waiting n) :
      StreamStep s .wait
        { s with call := some { c with pc := (sendWait s.a c.off n).1
                                       off := (sendWait s.a c.off n).2 } }
  | ret (s : StreamSys) (c : SendFrame) (r : Except Errno Nat) (hcall : s.call = some c)
      (hpc : c.pc = .done r) : StreamStep s (.ret r) { s with call := none }
  | deliverA (s : StreamSys) (f : Flight) (now : Nat) (hmem : f ∈ s.toA)
      (hage : s.sent < f.pos + 2 ^ 32) :
      StreamStep s (.deliverA f now)
        { s with a := (tcpRcvSock s.a f.seg now).tsk
                 toB := s.toB ++ (tcpRcvSock s.a f.seg now).reply.toList.map (⟨s.sent, ·⟩) }
  | deliverB (s : StreamSys) (f : Flight) (now : Nat) (hmem : f ∈ s.toB)
      (hage : s.sent < f.pos + 2 ^ 32) : StreamStep s (.deliverB f now) (s.receive f.seg now)
  | tickA (s : StreamSys) (now : Nat) (room : Bool) (t : TcpSock) (o : Option Segment)
      (htick : tcpTimerSock s.a now room true = .kept t o) :
      StreamStep s (.tickA now room)
        { s with a := t, toB := s.toB ++ o.toList.map (⟨s.sent - s.a.txLen, ·⟩) }
  | tickB (s : StreamSys) (now : Nat) (room : Bool) (t : TcpSock) (o : Option Segment)
      (htick : tcpTimerSock s.b now room true = .kept t o) :
      StreamStep s (.tickB now room)
        { s with b := t, toA := s.toA ++ o.toList.map (⟨s.queued.length, ·⟩) }
  | recv (s : StreamSys) (len : Nat) (nonblock : Bool) (hlen : tcpMss ≤ len) :
      StreamStep s (.recv len nonblock)
        { s with b := (tcpRecvmsg s.b len nonblock true).2
                 returned := s.returned ++ recvBytes (tcpRecvmsg s.b len nonblock true).1 }
  | lose (s : StreamSys) (toA toB : List Flight) (hA : ∀ f ∈ toA, f ∈ s.toA)
      (hB : ∀ f ∈ toB, f ∈ s.toB) : StreamStep s (.lose toA toB) { s with toA := toA, toB := toB }

open StreamStep

/-- The condition on an operation: an acknowledgment that is delivered while data is in the slot is
at most half of the sequence space old, and a segment is first sent while there is no error. -/
def StreamOp.Careful (s : StreamSys) : StreamOp → Prop
  | .deliverA f _ => s.a.txKind = .data → s.sent ≤ f.pos + 2 ^ 31
  | .emit _ => s.a.err = none
  | _ => True

/-- Runs of the connection. -/
def StreamRun : StreamSys → StreamSys → Prop := Run fun s s' => ∃ op, StreamStep s op s'

/-- Runs whose operations all meet the condition. -/
def CarefulStreamRun : StreamSys → StreamSys → Prop :=
  Run fun s s' => ∃ op, StreamStep s op s' ∧ op.Careful s

theorem CarefulStreamRun.streamRun (h : CarefulStreamRun s s') : StreamRun s s' := by
  refine Relation.ReflTransGen.mono ?_ s s' h
  rintro x y ⟨op, hop, -⟩
  exact ⟨op, hop⟩

/-- Part of a list. -/
def slice (l : List UInt8) (pos n : Nat) : List UInt8 := (l.drop pos).take n

/-- What a return must satisfy: a call that returns success has all bytes of its buffer queued at
the receiver, in the place that they have among the bytes written. -/
def StreamOp.Sound (s : StreamSys) : StreamOp → Prop
  | .ret (.ok n) => ∀ c, s.call = some c →
      n = c.buf.length ∧ slice s.queued (s.written.length - c.buf.length) c.buf.length = c.buf
  | _ => True

/-- Nothing has been sent on the connection. The network may hold what is left of the handshake. -/
structure StreamSys.Initial (s : StreamSys) : Prop where
  aState : s.a.state = .established
  aErr : s.a.err = none
  aKind : s.a.txKind = .none
  aMss : 0 < s.a.mss ∧ s.a.mss ≤ tcpMss
  bState : s.b.state = .established
  bKind : s.b.txKind = .none
  bOrphan : s.b.orphan = false
  bQueue : s.b.rcvQueue = []
  seq : s.a.sndNxt = s.b.rcvNxt ∧ s.a.sndNxt < 2 ^ 32
  call : s.call = none
  logs : s.written = [] ∧ s.queued = [] ∧ s.returned = [] ∧ s.sent = 0
  toA : ∀ f ∈ s.toA, f.pos = 0 ∧ f.seg.payload = [] ∧ f.seg.finFlag = false ∧
    f.seg.rstFlag = false ∧ (f.seg.ackFlag = true → f.seg.ack = s.a.sndNxt)
  toB : ∀ f ∈ s.toB, f.seg.payload = [] ∧ f.seg.finFlag = false ∧ f.seg.rstFlag = false

/-! ## Slices -/

theorem take_append_slice (l : List UInt8) (pos n : Nat) :
    l.take pos ++ slice l pos n = l.take (pos + n) := take_add.symm

theorem slice_append_left {l m : List UInt8} {pos : Nat} (h : pos + n ≤ l.length) :
    slice (l ++ m) pos n = slice l pos n := by
  unfold slice
  rw [drop_append_of_le_length (by omega), take_append_of_le_length]
  rw [length_drop]
  omega

theorem slice_append_right (l m : List UInt8) (pos n : Nat) :
    slice (l ++ m) (l.length + pos) n = slice m pos n := by
  unfold slice
  rw [← drop_drop, drop_left]

theorem slice_take {l : List UInt8} {pos k : Nat} (h : pos + n ≤ k) :
    slice (l.take k) pos n = slice l pos n := by
  unfold slice
  rw [drop_take, take_take, min_eq_left (by omega)]

/-! ## The invariant -/

/-- The slot holds the last bytes that were sent, and all before them have been queued. -/
structure SlotOk (iss : Nat) (s : StreamSys) : Prop where
  pos : 0 < s.a.txLen
  small : s.a.txLen ≤ tcpMss
  le : s.a.txLen ≤ s.sent
  len : s.a.txData.length = s.a.txLen
  seq : s.a.txSeq = u32 (iss + (s.sent - s.a.txLen))
  data : s.a.txData = slice s.written (s.sent - s.a.txLen) s.a.txLen
  before : s.sent - s.a.txLen ≤ s.queued.length

/-- The slot is as it was, and no fewer bytes have been queued. -/
theorem SlotOk.of_sendSide (h : SlotOk iss s) (hside : s'.a.sendSide = s.a.sendSide)
    (hsent : s'.sent = s.sent) (hwritten : s'.written = s.written)
    (hqueued : s.queued.length ≤ s'.queued.length) : SlotOk iss s' := by
  simp only [TcpSock.sendSide, SendSide.mk.injEq] at hside
  obtain ⟨-, -, hdata, hlen, hseq, -⟩ := hside
  refine ⟨?_, ?_, ?_, ?_, ?_, ?_, ?_⟩ <;> simp only [hdata, hlen, hseq, hsent, hwritten]
  · exact h.pos
  · exact h.small
  · exact h.le
  · exact h.len
  · exact h.seq
  · exact h.data
  · exact le_trans h.before hqueued

theorem SlotOk.end_eq (h : SlotOk iss s) :
    u32 (s.a.txSeq + s.a.txLen) = (iss + s.sent) % 2 ^ 32 := by
  have hle := h.le
  rw [h.seq]
  unfold u32
  omega

/-- A segment on its way to the sender acknowledges bytes that have been queued. -/
structure AckFlight (iss : Nat) (s : StreamSys) (f : Flight) : Prop where
  pos : f.pos ≤ s.queued.length
  ack : f.seg.ackFlag = true → f.seg.ack = u32 (iss + f.pos)
  payload : f.seg.payload = []
  fin : f.seg.finFlag = false
  rst : f.seg.rstFlag = false

/-- A segment on its way to the receiver carries what was written at its position, or it is old. -/
structure DataFlight (iss : Nat) (s : StreamSys) (f : Flight) : Prop where
  fin : f.seg.finFlag = false
  rst : f.seg.rstFlag = false
  data : f.seg.payload = [] ∨ f.seg.seq = u32 (iss + f.pos) ∧
    f.pos + f.seg.payload.length ≤ s.sent ∧ f.seg.payload.length ≤ tcpMss ∧
    (f.seg.payload = slice s.written f.pos f.seg.payload.length ∨
      f.pos + f.seg.payload.length ≤ s.queued.length)

/-- What holds for the running call, by its program point. Its buffer starts at position `base`. -/
def FrameOk (iss : Nat) (s : StreamSys) (base : Nat) (c : SendFrame) : SendPc → Prop
  | .top => s.a.txKind = .none ∧ c.off ≤ c.buf.length ∧
      (s.a.err = none → s.sent = base + c.off) ∧ (s.a.err ≠ none → c.off = 0)
  | .copied _ data | .sleeping _ data => s.a.txKind = .none ∧
      data = slice c.buf c.off data.length ∧ c.off + data.length ≤ c.buf.length ∧
      0 < data.length ∧ data.length ≤ tcpMss ∧ (s.a.err = none → s.sent = base + c.off)
  | .filled ptr seq _ data => c.off + data.length ≤ c.buf.length ∧ data.length ≤ tcpMss ∧
      (s.a.err = none → s.sent = base + c.off + data.length ∧ seq = u32 (iss + (base + c.off)) ∧
        (s.a.txKind = .data → s.a.txPtr = some ptr ∧ s.a.txData.length = data.length))
  | .waiting n => c.off + n ≤ c.buf.length ∧ (s.a.err = none → s.sent = base + c.off + n)
  | .failed _ _ _ => False
  | .done (.ok n) => n = c.buf.length ∧ s.a.txKind = .none ∧
      (c.buf = [] ∨ base + c.buf.length ≤ s.queued.length) ∧
      (s.a.err = none → s.sent = base + c.buf.length)
  | .done (.error _) => s.a.err ≠ none

/-- Between two calls everything written has been sent, unless the connection is dead. -/
def CallsOk (iss : Nat) (s : StreamSys) : Option SendFrame → Prop
  | none => s.a.txKind = .none ∧ (s.a.err = none → s.sent = s.written.length)
  | some c => ∃ before, s.written = before ++ c.buf ∧ FrameOk iss s before.length c c.pc

/-- The two endpoints and the network agree on the stream. `iss` is the number of its first byte. -/
structure StreamInv (iss : Nat) (s : StreamSys) : Prop where
  aOpen : s.a.err = none → s.a.state = .established
  aDead : s.a.err ≠ none → s.a.state = .close ∧ s.a.txKind = .none
  aSeq : s.a.sndNxt = u32 (iss + s.sent)
  mss : 0 < s.a.mss ∧ s.a.mss ≤ tcpMss
  kind : s.a.txKind = .none ∨ s.a.txKind = .data
  slot : s.a.txKind = .data → SlotOk iss s
  idle : s.a.txKind = .none → s.a.err = none → s.queued.length = s.sent
  bound : s.queued.length ≤ s.sent ∧ s.sent ≤ s.written.length ∧
    s.sent ≤ s.queued.length + tcpMss
  queue : s.queued = s.written.take s.queued.length
  kept : s.returned ++ s.b.queuedBytes = s.queued
  small : ∀ p ∈ s.b.rcvQueue, p.length ≤ tcpMss
  bOpen : s.b.state = .established ∧ s.b.orphan = false ∧ s.b.txKind = .none
  bSeq : s.b.rcvNxt = u32 (iss + s.queued.length)
  toA : ∀ f ∈ s.toA, AckFlight iss s f
  toB : ∀ f ∈ s.toB, DataFlight iss s f
  call : CallsOk iss s s.call

/-- What holds for the running call at its program point. -/
theorem StreamInv.frame (hs : StreamInv iss s) (hcall : s.call = some c) (hpc : c.pc = pc) :
    ∃ before, s.written = before ++ c.buf ∧ FrameOk iss s before.length c pc := by
  have hcalls := hs.call
  rw [hcall] at hcalls
  obtain ⟨before, hw, hframe⟩ := hcalls
  rw [hpc] at hframe
  exact ⟨before, hw, hframe⟩

theorem StreamSys.Initial.inv (h : s.Initial) : StreamInv s.a.sndNxt s := by
  obtain ⟨hw, hq, hr, hsent⟩ := h.logs
  have hseq : s.a.sndNxt = u32 (s.a.sndNxt + 0) := (u32_of_lt h.seq.2).symm
  refine ⟨fun _ => h.aState, fun hne => absurd h.aErr hne, by rw [hsent]; exact hseq, h.aMss,
    .inl h.aKind, fun hk => ?_, fun _ _ => ?_, ?_, ?_, ?_, ?_, ⟨h.bState, h.bOrphan, h.bKind⟩, ?_,
    ?_, ?_, ?_⟩
  · rw [h.aKind] at hk
    cases hk
  · rw [hq, hsent]
    rfl
  · simp [hq, hsent]
  · simp [hq]
  · simp [hr, hq, TcpSock.queuedBytes, h.bQueue]
  · simp [h.bQueue]
  · rw [hq, ← h.seq.1]
    exact hseq
  · intro f hf
    obtain ⟨hpos, hpay, hfin, hrst, hack⟩ := h.toA f hf
    refine ⟨by omega, fun ha => ?_, hpay, hfin, hrst⟩
    rw [hack ha, hpos]
    exact hseq
  · intro f hf
    obtain ⟨hpay, hfin, hrst⟩ := h.toB f hf
    exact ⟨hfin, hrst, .inl hpay⟩
  · rw [h.call]
    refine ⟨h.aKind, fun _ => ?_⟩
    simp [hsent, hw]

/-! ## How the parts carry over -/

/-- What the network and the timer can do to the sender: its slot can be emptied, and an error can
hit only a sender with something in its slot. -/
structure SenderChange (t t' : TcpSock) : Prop where
  idle : t.txKind = .none → t'.txKind = .none ∧ t'.err = t.err
  err : t'.err = none → t.err = none
  data : t'.txKind = .data → t.txKind = .data ∧ t'.txPtr = t.txPtr ∧ t'.txData = t.txData

theorem SenderChange.of_sendSide {t' : TcpSock} (h : t'.sendSide = t.sendSide) :
    SenderChange t t' := by
  simp only [TcpSock.sendSide, SendSide.mk.injEq] at h
  obtain ⟨hkind, hptr, hdata, -, -, herr, -, -⟩ := h
  exact ⟨fun hk => ⟨hkind.trans hk, herr⟩, fun he => herr ▸ he,
    fun hk => ⟨hkind ▸ hk, hptr, hdata⟩⟩

theorem FrameOk.sender {base : Nat} (hchange : SenderChange s.a s'.a)
    (hsent : s'.sent = s.sent) (hqueued : s.queued.length ≤ s'.queued.length)
    (h : FrameOk iss s base c pc) : FrameOk iss s' base c pc := by
  cases pc with
  | top =>
    obtain ⟨hkind, hoff, hpos, hzero⟩ := h
    obtain ⟨hkind', herr⟩ := hchange.idle hkind
    refine ⟨hkind', hoff, ?_, ?_⟩
    · rw [herr, hsent]
      exact hpos
    · rw [herr]
      exact hzero
  | copied ptr data | sleeping ptr data =>
    obtain ⟨hkind, hdata, hle, hlen, hmss, hpos⟩ := h
    obtain ⟨hkind', herr⟩ := hchange.idle hkind
    refine ⟨hkind', hdata, hle, hlen, hmss, ?_⟩
    rw [herr, hsent]
    exact hpos
  | filled ptr seq ack data =>
    obtain ⟨hle, hmss, hrest⟩ := h
    refine ⟨hle, hmss, fun herr => ?_⟩
    obtain ⟨hpos, hseq, hslot⟩ := hrest (hchange.err herr)
    refine ⟨hsent.trans hpos, hseq, fun hk => ?_⟩
    obtain ⟨hk', hptr, hdata⟩ := hchange.data hk
    rw [hptr, hdata]
    exact hslot hk'
  | failed ptr seq e => exact h
  | waiting n => exact ⟨h.1, fun herr => hsent.trans (h.2 (hchange.err herr))⟩
  | done r =>
    cases r with
    | ok n =>
      obtain ⟨hn, hkind, hall, hpos⟩ := h
      obtain ⟨hkind', herr⟩ := hchange.idle hkind
      refine ⟨hn, hkind', hall.imp id (fun h => le_trans h hqueued), ?_⟩
      rw [herr, hsent]
      exact hpos
    | error e => exact fun herr => h (hchange.err herr)

theorem CallsOk.sender {c : Option SendFrame} (hchange : SenderChange s.a s'.a)
    (hsent : s'.sent = s.sent) (hwritten : s'.written = s.written)
    (hqueued : s.queued.length ≤ s'.queued.length) (h : CallsOk iss s c) : CallsOk iss s' c := by
  cases c with
  | none =>
    obtain ⟨hkind', herr⟩ := hchange.idle h.1
    refine ⟨hkind', ?_⟩
    rw [herr, hsent, hwritten]
    exact h.2
  | some c =>
    obtain ⟨before, hw, hframe⟩ := h
    exact ⟨before, hwritten.trans hw, hframe.sender hchange hsent hqueued⟩

theorem AckFlight.mono (h : AckFlight iss s f) (hqueued : s.queued.length ≤ s'.queued.length) :
    AckFlight iss s' f :=
  ⟨le_trans h.pos hqueued, h.ack, h.payload, h.fin, h.rst⟩

theorem DataFlight.mono (h : DataFlight iss s f) (hbound : s.sent ≤ s.written.length)
    (hsent : s.sent ≤ s'.sent) (hqueued : s.queued.length ≤ s'.queued.length) {more : List UInt8}
    (hwritten : s'.written = s.written ++ more) : DataFlight iss s' f := by
  refine ⟨h.fin, h.rst, h.data.imp id ?_⟩
  rintro ⟨hseq, hle, hmss, hdata⟩
  refine ⟨hseq, le_trans hle hsent, hmss, hdata.imp (fun hs => ?_) (fun ho => ?_)⟩
  · rw [hwritten, slice_append_left (by omega)]
    exact hs
  · exact le_trans ho hqueued

theorem DataFlight.same (h : DataFlight iss s f) (hbound : s.sent ≤ s.written.length)
    (hsent : s.sent ≤ s'.sent) (hqueued : s.queued.length ≤ s'.queued.length)
    (hwritten : s'.written = s.written) : DataFlight iss s' f :=
  h.mono hbound hsent hqueued (by rw [hwritten, append_nil])

section

variable (hs : StreamInv iss s)

include hs

/-- A step of the call or on the receiver's side that sends and queues nothing. -/
theorem StreamInv.keep {toA : List Flight} {returned : List UInt8} {c : Option SendFrame}
    (hopen : b.state = s.b.state ∧ b.orphan = s.b.orphan ∧ b.txKind = s.b.txKind)
    (hseq : b.rcvNxt = s.b.rcvNxt) (hkept : returned ++ b.queuedBytes = s.queued)
    (hsmall : ∀ p ∈ b.rcvQueue, p.length ≤ tcpMss) (htoA : ∀ f ∈ toA, AckFlight iss s f)
    (hcall : CallsOk iss s c) :
    StreamInv iss { s with b := b, toA := toA, returned := returned, call := c } := by
  refine ⟨hs.aOpen, hs.aDead, hs.aSeq, hs.mss, hs.kind,
    fun hk => (hs.slot hk).of_sendSide rfl rfl rfl le_rfl, hs.idle, hs.bound, hs.queue,
    hkept, hsmall, ?_, hseq.trans hs.bSeq, fun f hf => (htoA f hf).mono le_rfl,
    fun f hf => (hs.toB f hf).same hs.bound.2.1 le_rfl le_rfl rfl,
    hcall.sender (.of_sendSide rfl) rfl rfl le_rfl⟩
  obtain ⟨h1, h2, h3⟩ := hopen
  exact ⟨h1.trans hs.bOpen.1, h2.trans hs.bOpen.2.1, h3.trans hs.bOpen.2.2⟩

theorem StreamInv.setCall {c : Option SendFrame} (h : CallsOk iss s c) :
    StreamInv iss { s with call := c } :=
  hs.keep ⟨rfl, rfl, rfl⟩ rfl hs.kept hs.small hs.toA h

/-- A step of the network or the timer on the sender's side. -/
theorem StreamInv.replaceSender (hopen : a.err = none → a.state = .established)
    (hdead : a.err ≠ none → a.state = .close ∧ a.txKind = .none) (hseq : a.sndNxt = s.a.sndNxt)
    (hmss : a.mss = s.a.mss)
    (hslot : a.txKind = .none ∨ a.txKind = .data ∧ a.sendSide = s.a.sendSide)
    (hidle : a.txKind = .none → a.err = none → s.queued.length = s.sent)
    (hchange : SenderChange s.a a) (htoB : ∀ f ∈ toB, DataFlight iss s f) :
    StreamInv iss { s with a := a, toB := toB } := by
  refine ⟨hopen, hdead, hseq.trans hs.aSeq, by rw [hmss]; exact hs.mss, hslot.imp id And.left,
    fun hk => ?_, hidle, hs.bound, hs.queue, hs.kept, hs.small, hs.bOpen, hs.bSeq,
    fun f hf => (hs.toA f hf).mono le_rfl, fun f hf => ?_,
    hs.call.sender hchange rfl rfl le_rfl⟩
  · rcases hslot with hnone | ⟨hdata, hside⟩
    · exact absurd (hnone.symm.trans hk) (by decide)
    · have hkind : a.txKind = s.a.txKind := congrArg SendSide.txKind hside
      exact (hs.slot (hkind.symm.trans hdata)).of_sendSide hside rfl rfl le_rfl
  · exact (htoB f hf).same hs.bound.2.1 le_rfl le_rfl rfl

/-- A step that leaves the slot of the sender alone. -/
theorem StreamInv.sameSender (hside : a.sendSide = s.a.sendSide) (hstate : a.state = s.a.state)
    (htoB : ∀ f ∈ toB, DataFlight iss s f) : StreamInv iss { s with a := a, toB := toB } := by
  have hfields := hside
  simp only [TcpSock.sendSide, SendSide.mk.injEq] at hfields
  obtain ⟨hkind, -, -, -, -, herr, hmss, hseq⟩ := hfields
  refine hs.replaceSender ?_ ?_ hseq hmss ?_ ?_ (.of_sendSide hside) htoB
  · rw [herr, hstate]
    exact hs.aOpen
  · rw [herr, hstate, hkind]
    exact hs.aDead
  · rw [hkind]
    exact hs.kind.imp id fun h => ⟨h, hside⟩
  · rw [herr, hkind]
    exact hs.idle

end

/-! ## The sender's steps -/

theorem canSend_of_established (h : t.state = .established) : t.canSend = true := by
  simp [TcpSock.canSend, h]

section

variable (hs : StreamInv iss s)

include hs

/-- Filling the slot of an idle sender. -/
theorem StreamInv.fill (ptr now : Nat) (hw : s.written = before ++ c.buf)
    (herr : s.a.err = none) (hkind : s.a.txKind = .none)
    (hdata : data = slice c.buf c.off data.length) (hle : c.off + data.length ≤ c.buf.length)
    (hpos : 0 < data.length) (hmss : data.length ≤ tcpMss)
    (hsent : s.sent = before.length + c.off) :
    StreamInv iss (s.afterSlot c (.filled ptr s.a.sndNxt s.a.rcvNxt data,
      tcpFillTx s.a ptr data now)) := by
  have hidle := hs.idle hkind herr
  have hu16 : u16 data.length = data.length := by
    refine u16_of_lt (lt_of_le_of_lt hmss ?_)
    decide
  have hlen : s.written.length = before.length + c.buf.length := by rw [hw, length_append]
  have hback : s.sent + data.length - data.length = s.sent := Nat.add_sub_cancel _ _
  refine ⟨fun _ => hs.aOpen herr, fun h => absurd herr h, ?_, hs.mss, .inr rfl, fun _ => ?_,
    fun h => (by cases h), ?_, hs.queue, hs.kept, hs.small, hs.bOpen, hs.bSeq,
    fun f hf => (hs.toA f hf).mono le_rfl,
    fun f hf => (hs.toB f hf).same hs.bound.2.1 (Nat.le_add_right _ _) le_rfl rfl, ?_⟩
  · show u32 (s.a.sndNxt + data.length) = u32 (iss + (s.sent + data.length))
    rw [hs.aSeq]
    unfold u32
    omega
  · refine ⟨?_, ?_, ?_, ?_, ?_, ?_, ?_⟩
    · show 0 < u16 data.length
      omega
    · show u16 data.length ≤ tcpMss
      omega
    · show u16 data.length ≤ s.sent + data.length
      omega
    · exact hu16.symm
    · show s.a.sndNxt = u32 (iss + (s.sent + data.length - u16 data.length))
      rw [hu16, hback]
      exact hs.aSeq
    · show data = slice s.written (s.sent + data.length - u16 data.length) (u16 data.length)
      rw [hu16, hback, hw, hsent, slice_append_right]
      exact hdata
    · show s.sent + data.length - u16 data.length ≤ s.queued.length
      omega
  · show s.queued.length ≤ s.sent + data.length ∧ s.sent + data.length ≤ s.written.length ∧
      s.sent + data.length ≤ s.queued.length + tcpMss
    omega
  · refine ⟨before, hw, hle, hmss, fun _ => ⟨?_, ?_, fun _ => ⟨rfl, rfl⟩⟩⟩
    · show s.sent + data.length = before.length + c.off + data.length
      omega
    · rw [← hsent]
      exact hs.aSeq

/-- A section that tries to fill the slot. -/
theorem StreamInv.slotSection {ptr : Nat} (hw : s.written = before ++ c.buf)
    (hframe : FrameOk iss s before.length c (.copied ptr data)) {r : SendPc × TcpSock}
    (hr : (∃ e, (s.a.err ≠ none ∨ s.a.canSend = false) ∧ r = (.done (.error e), s.a)) ∨
      r = sendSlot s.a ptr data now) : StreamInv iss (s.afterSlot c r) := by
  obtain ⟨hkind, hdata, hle, hpos, hmss, hsent⟩ := hframe
  have herror : ∀ e, (s.a.err ≠ none ∨ s.a.canSend = false) →
      StreamInv iss (s.afterSlot c (.done (.error e), s.a)) := by
    intro e hcause
    refine hs.setCall ⟨before, hw, ?_⟩
    -- a sender without error is established and can send
    intro herr
    have hcan := canSend_of_established (hs.aOpen herr)
    rcases hcause with h | h
    · exact h herr
    · rw [hcan] at h
      cases h
  rcases hr with ⟨e, hcause, rfl⟩ | rfl
  · exact herror e hcause
  rcases sendSlot_cases s.a ptr data now with ⟨e, hcause, h⟩ | ⟨hbusy, -⟩ | ⟨herr, -, -, h⟩
  · rw [h]
    exact herror e hcause
  · exact absurd hkind hbusy
  · rw [h]
    exact hs.fill ptr now hw herr hkind hdata hle hpos hmss (hsent herr)

theorem StreamInv.top (ptr : Nat) (hcall : s.call = some c) (hpc : c.pc = .top) : StreamInv iss
      { s with call := some { c with pc := sendTop s.a c.buf c.off (some ptr) true } } := by
  obtain ⟨before, hw, hkind, hoff, hsent, hzero⟩ := hs.frame hcall hpc
  refine hs.setCall ⟨before, hw, ?_⟩
  rcases sendTop_cases s.a c.buf c.off (some ptr) true hs.mss.1 with
    ⟨e, hcause, -⟩ | ⟨hend, htop⟩ | ⟨ptr', data, -, hle, hmss, hpos, hdata, htop⟩
  · rcases hcause with h | h <;> cases h
  · rw [htop]
    have heq : c.off = c.buf.length := le_antisymm hoff hend
    refine ⟨rfl, hkind, ?_, fun herr => by rw [← heq]; exact hsent herr⟩
    by_cases herr : s.a.err = none
    · right
      have := hs.idle hkind herr
      have := hsent herr
      show before.length + c.buf.length ≤ s.queued.length
      omega
    · left
      have := hzero herr
      exact length_eq_zero_iff.1 (show c.buf.length = 0 by omega)
  · rw [htop]
    exact ⟨hkind, hdata, hle, hpos, le_trans hmss hs.mss.2, hsent⟩

section

variable (hcall : s.call = some c)

include hcall

/-- The first transmission, while there is no error. -/
theorem StreamInv.emit {ptr seq ack : Nat} {bytes : List UInt8}
    (hpc : c.pc = .filled ptr seq ack data) (hlen : bytes.length = data.length)
    (hbytes : s.a.txPtr = some ptr → bytes = s.a.txData) (herr : s.a.err = none) :
    StreamInv iss
      { s with call := some { c with pc := .waiting data.length }
               toB := s.toB ++ [⟨s.sent - data.length, dataSegment s.a seq ack bytes⟩] } := by
  obtain ⟨before, hw, hle, hmss, hrest⟩ := hs.frame hcall hpc
  obtain ⟨hsent, hseq, hslot⟩ := hrest herr
  have hmoved : StreamInv iss { s with call := some { c with pc := .waiting data.length } } :=
    hs.setCall ⟨before, hw, hle, fun _ => hsent⟩
  have hstart : s.sent - data.length = before.length + c.off := by omega
  refine hmoved.sameSender rfl rfl (forall_mem_append.2 ⟨hmoved.toB, forall_mem_singleton.2 ?_⟩)
  refine ⟨rfl, rfl, .inr ⟨?_, ?_, ?_, ?_⟩⟩
  · rw [hstart]
    exact hseq
  · show s.sent - data.length + bytes.length ≤ s.sent
    omega
  · show bytes.length ≤ tcpMss
    omega
  -- the slot still holds the bytes, or they have been acknowledged
  rcases hs.kind with hkind | hkind
  · right
    have := hs.idle hkind herr
    show s.sent - data.length + bytes.length ≤ s.queued.length
    omega
  left
  obtain ⟨hptr, hdatalen⟩ := hslot hkind
  have hok := hs.slot hkind
  have hb := hbytes hptr
  show bytes = slice s.written (s.sent - data.length) bytes.length
  rw [hlen, ← hdatalen, hok.len, ← hok.data]
  exact hb

theorem StreamInv.wait (hpc : c.pc = .waiting n) : StreamInv iss
      { s with call := some { c with pc := (sendWait s.a c.off n).1
                                     off := (sendWait s.a c.off n).2 } } := by
  obtain ⟨before, hw, hle, hsent⟩ := hs.frame hcall hpc
  refine hs.setCall ⟨before, hw, ?_⟩
  unfold sendWait
  split
  · rename_i herr
    show s.a.err ≠ none
    simp [herr]
  rename_i herr
  split
  · exact ⟨hle, hsent⟩
  rename_i hkind
  have hnone : s.a.txKind = .none := hs.kind.resolve_right hkind
  refine ⟨hnone, hle, fun _ => ?_, fun h => absurd herr h⟩
  have := hsent herr
  show s.sent = before.length + (c.off + n)
  omega

theorem StreamInv.ret {r : Except Errno Nat} (hpc : c.pc = .done r) :
    StreamInv iss { s with call := none } := by
  obtain ⟨before, hw, hframe⟩ := hs.frame hcall hpc
  refine hs.setCall ?_
  cases r with
  | ok n =>
    obtain ⟨-, hkind, -, hsent⟩ := hframe
    refine ⟨hkind, fun herr => ?_⟩
    rw [hsent herr, hw, length_append]
  | error e =>
    exact ⟨(hs.aDead hframe).2, fun herr => absurd herr hframe⟩

end

theorem StreamInv.start (buf : List UInt8) (hidle : s.call = none) :
    StreamInv iss { s with call := some ⟨buf, 0, .top⟩, written := s.written ++ buf } := by
  have hcalls := hs.call
  rw [hidle] at hcalls
  obtain ⟨hkind, hsent⟩ := hcalls
  refine ⟨hs.aOpen, hs.aDead, hs.aSeq, hs.mss, hs.kind, fun hk => ?_, hs.idle, ?_, ?_, hs.kept,
    hs.small, hs.bOpen, hs.bSeq, fun f hf => (hs.toA f hf).mono (Nat.le_refl _),
    fun f hf => (hs.toB f hf).mono hs.bound.2.1 (Nat.le_refl _) (Nat.le_refl _) rfl, ?_⟩
  · rw [hkind] at hk
    cases hk
  · obtain ⟨h1, h2, h3⟩ := hs.bound
    refine ⟨h1, ?_, h3⟩
    show s.sent ≤ (s.written ++ buf).length
    rw [length_append]
    omega
  · rw [take_append_of_le_length (Nat.le_trans hs.bound.1 hs.bound.2.1)]
    exact hs.queue
  · exact ⟨s.written, rfl, hkind, Nat.zero_le _, hsent, fun _ => rfl⟩

/-! ## The network and the timers -/

/-- An acknowledgment that covers the slot, and is not too old, stands for the end of the stream. -/
theorem StreamInv.acked (hf : AckFlight iss s f) (hflag : f.seg.ackFlag = true)
    (hkind : s.a.txKind = .data) (hage : s.sent ≤ f.pos + 2 ^ 31)
    (hcover : tcpSeqGeq f.seg.ack (u32 (s.a.txSeq + s.a.txLen)) = true) :
    s.queued.length = s.sent := by
  have hdiff :
      Serial.diff (2 ^ 32) ((iss + f.pos) % 2 ^ 32) ((iss + s.sent) % 2 ^ 32) < 2 ^ 31 := by
    rw [(hs.slot hkind).end_eq, hf.ack hflag] at hcover
    exact of_decide_eq_true hcover
  have hle := le_trans hf.pos hs.bound.1
  have heq := Serial.eq_of_diff_lt rfl (by decide) hle hage hdiff
  have := hf.pos
  have := hs.bound.1
  omega

theorem StreamInv.deliverA (now : Nat) (hmem : f ∈ s.toA)
    (hcare : s.a.txKind = .data → s.sent ≤ f.pos + 2 ^ 31) :
    StreamInv iss
      { s with a := (tcpRcvSock s.a f.seg now).tsk
               toB := s.toB ++ (tcpRcvSock s.a f.seg now).reply.toList.map (⟨s.sent, ·⟩) } := by
  have hf := hs.toA f hmem
  have hstate : s.a.state = .established ∨ s.a.state = .close := by
    by_cases herr : s.a.err = none
    · exact .inl (hs.aOpen herr)
    · exact .inr (hs.aDead herr).1
  have hrcv : tcpRcvSock s.a f.seg now = rcvAck { tsk := s.a } f.seg := by
    rw [tcpRcvSock_plain now hstate hf.rst hf.fin, rcvPayload, hf.payload]
    rfl
  rw [hrcv]
  obtain ⟨una, wake, h | ⟨hflag, hcover, h⟩⟩ := rcvAck_cases { tsk := s.a } f.seg
  · rw [h]
    refine hs.sameSender rfl rfl ?_
    simpa using hs.toB
  rw [h]
  -- the slot holds data, since this side never sends a `FIN`
  have hkind : s.a.txKind = .data := by
    rcases hs.kind with hk | hk
    · simp [ackCoversData, ackCoversFin, hk] at hcover
    · exact hk
  have herr : s.a.err = none := by
    by_contra hne
    have := (hs.aDead hne).2
    rw [hkind] at this
    cases this
  have hgeq : tcpSeqGeq f.seg.ack (u32 (s.a.txSeq + s.a.txLen)) = true := by
    simpa [ackCoversData, ackCoversFin, hkind] using hcover
  have hall := hs.acked hf hflag hkind (hcare hkind) hgeq
  refine hs.replaceSender (fun _ => hs.aOpen herr) (fun hne => absurd herr hne) rfl rfl (.inl rfl)
    (fun _ _ => hall) ⟨fun hk => ?_, fun _ => herr, fun hk => ?_⟩ ?_
  · rw [hkind] at hk
    cases hk
  · cases hk
  · simpa using hs.toB

theorem StreamInv.tickA (htick : tcpTimerSock s.a now room true = .kept t o) :
    StreamInv iss { s with a := t, toB := s.toB ++ o.toList.map (⟨s.sent - s.a.txLen, ·⟩) } := by
  rcases tcpTimerSock_kept htick with ⟨e, hkind, rfl, rfl⟩ | ⟨⟨retries, deadline, rfl⟩, hout⟩
  · refine hs.replaceSender (fun h => ?_) (fun _ => ⟨rfl, rfl⟩) rfl rfl (.inl rfl) (fun _ h => ?_)
      ⟨fun hk => absurd hk hkind, fun h => ?_, fun hk => ?_⟩ ?_
    · cases h
    · cases h
    · cases h
    · cases hk
    · simpa using hs.toB
  refine hs.sameSender rfl rfl ?_
  intro f hf
  rcases mem_append.1 hf with hf | hf
  · exact hs.toB f hf
  -- a retransmission of the slot
  obtain ⟨g, hg, rfl⟩ := mem_map.1 hf
  obtain ⟨hkind, rfl⟩ := hout g (Option.mem_toList.1 hg)
  have hdata : s.a.txKind = .data := hs.kind.resolve_left hkind
  have hslot := hs.slot hdata
  have hseg : s.a.retransmit =
      tcpBuildSegment s.a s.a.txSeq s.a.rcvNxt false true false s.a.txData false := by
    rw [TcpSock.retransmit, hdata, ← hslot.len, take_length]
  have hle := hslot.le
  have hmss := hslot.small
  rw [hseg]
  refine ⟨rfl, rfl, .inr ⟨hslot.seq, ?_, ?_, .inl ?_⟩⟩
  · show s.sent - s.a.txLen + s.a.txData.length ≤ s.sent
    rw [hslot.len]
    omega
  · show s.a.txData.length ≤ tcpMss
    rw [hslot.len]
    exact hmss
  · show s.a.txData = slice s.written (s.sent - s.a.txLen) s.a.txData.length
    rw [hslot.len]
    exact hslot.data

end

/-- What a segment does to a receiver that sends nothing. -/
theorem rcv_receiver {g : Segment} (now : Nat) (hstate : t.state = .established)
    (horphan : t.orphan = false) (hkind : t.txKind = .none) (hrst : g.rstFlag = false)
    (hfin : g.finFlag = false) :
    ∃ una wake,
      (g.payload ≠ [] → tcpRcvQueueMax ≤ t.rcvQueue.length) ∧
        tcpRcvSock t g now = { tsk := { t with sndUna := una }, wakeChild := wake } ∨
      g.seq ≠ t.rcvNxt ∧ tcpRcvSock t g now =
        RcvOut.sendAck { tsk := { t with sndUna := una }, wakeChild := wake } ∨
      g.payload ≠ [] ∧ g.seq = t.rcvNxt ∧ tcpRcvSock t g now =
        RcvOut.sendAck
          { tsk := { t with sndUna := una, rcvQueue := t.rcvQueue ++ [g.payload]
                            rcvNxt := u32 (t.rcvNxt + g.payload.length) }
            queued := true
            wakeChild := true } := by
  rw [tcpRcvSock_plain now (.inl hstate) hrst hfin]
  obtain ⟨una, wake, h | ⟨-, hcover, -⟩⟩ := rcvAck_cases { tsk := t } g
  · refine ⟨una, wake, ?_⟩
    rw [h]
    by_cases hpay : g.payload = []
    · exact .inl ⟨fun h => absurd hpay h, by simp [rcvPayload, hpay]⟩
    by_cases hseq : g.seq = t.rcvNxt
    · by_cases hroom : t.rcvQueue.length < tcpRcvQueueMax
      · exact .inr (.inr ⟨hpay, hseq, by simp [rcvPayload, hpay, hseq, horphan, hroom]⟩)
      · exact .inl ⟨fun _ => Nat.le_of_not_lt hroom,
          by simp [rcvPayload, hpay, hseq, horphan, hroom]⟩
    · exact .inr (.inl ⟨hseq, by simp [rcvPayload, hpay, hseq]⟩)
  · simp [ackCoversData, ackCoversFin, hkind] at hcover

section

variable (hs : StreamInv iss s) {op : StreamOp}

include hs

/-- The receiver accepts a segment only at the position that it waits for. -/
theorem StreamInv.accepted (hf : DataFlight iss s f) (hage : s.sent < f.pos + 2 ^ 32)
    (hpay : f.seg.payload ≠ []) (hseq : f.seg.seq = s.b.rcvNxt) :
    f.pos = s.queued.length ∧ s.queued.length + f.seg.payload.length ≤ s.sent ∧
      f.seg.payload.length ≤ tcpMss ∧
      f.seg.payload = slice s.written s.queued.length f.seg.payload.length := by
  obtain ⟨hseq', hle, hmss, hdata⟩ := hf.data.resolve_left hpay
  have hbound := hs.bound
  have hmssLt : tcpMss < 2 ^ 32 := by decide
  have hpos : f.pos = s.queued.length := by
    have hnumbers : (iss + f.pos) % 2 ^ 32 = (iss + s.queued.length) % 2 ^ 32 :=
      hseq'.symm.trans (hseq.trans hs.bSeq)
    exact Serial.inj_of_near (by omega) (by omega) hnumbers
  have hlen : 0 < f.seg.payload.length := length_pos_iff.2 hpay
  refine ⟨hpos, by omega, hmss, ?_⟩
  rcases hdata with hdata | hold
  · rwa [hpos] at hdata
  · omega

/-- The receiver queues the bytes that it waits for and answers. -/
theorem StreamInv.enqueue {payload : List UInt8}
    (hopen : b.state = s.b.state ∧ b.orphan = s.b.orphan ∧ b.txKind = s.b.txKind)
    (hseq : b.rcvNxt = u32 (s.b.rcvNxt + payload.length))
    (hqueue : b.rcvQueue = s.b.rcvQueue ++ [payload]) (hpay : payload ≠ [])
    (hle : s.queued.length + payload.length ≤ s.sent) (hmss : payload.length ≤ tcpMss)
    (hdata : payload = slice s.written s.queued.length payload.length) (seq : Nat) :
    StreamInv iss
      { s with b := b
               queued := s.queued ++ payload
               toA := s.toA ++ [⟨(s.queued ++ payload).length,
                 tcpBuildSegment b seq b.rcvNxt false true false [] false⟩] } := by
  have hbound := hs.bound
  have hlen : 0 < payload.length := length_pos_iff.2 hpay
  have hlenq : (s.queued ++ payload).length = s.queued.length + payload.length :=
    length_append
  have hnext : b.rcvNxt = u32 (iss + (s.queued ++ payload).length) := by
    rw [hseq, hs.bSeq, hlenq]
    unfold u32
    omega
  have hgrow : s.queued.length ≤ (s.queued ++ payload).length := by omega
  refine ⟨hs.aOpen, hs.aDead, hs.aSeq, hs.mss, hs.kind, fun hk => ?_, fun hk herr => ?_, ?_, ?_,
    ?_, ?_, ?_, hnext, ?_, ?_, CallsOk.sender (s := s) (.of_sendSide rfl) rfl rfl hgrow hs.call⟩
  · exact (hs.slot hk).of_sendSide rfl rfl rfl hgrow
  · -- an idle sender has nothing that the receiver still waits for
    have := hs.idle hk herr
    omega
  · show (s.queued ++ payload).length ≤ s.sent ∧ s.sent ≤ s.written.length ∧
      s.sent ≤ (s.queued ++ payload).length + tcpMss
    omega
  · rw [hlenq, ← take_append_slice, ← hdata, ← hs.queue]
  · have hkept := hs.kept
    show s.returned ++ b.rcvQueue.flatten = s.queued ++ payload
    rw [hqueue, flatten_append, ← append_assoc]
    rw [TcpSock.queuedBytes] at hkept
    rw [hkept]
    simp
  · rw [hqueue]
    exact forall_mem_append.2 ⟨hs.small, forall_mem_singleton.2 hmss⟩
  · obtain ⟨h1, h2, h3⟩ := hopen
    exact ⟨h1.trans hs.bOpen.1, h2.trans hs.bOpen.2.1, h3.trans hs.bOpen.2.2⟩
  · refine forall_mem_append.2 ⟨fun f hf => (hs.toA f hf).mono hgrow, forall_mem_singleton.2 ?_⟩
    exact ⟨le_rfl, fun _ => hnext, rfl, rfl, rfl⟩
  · intro f hf
    exact (hs.toB f hf).same hbound.2.1 le_rfl hgrow rfl

theorem StreamInv.deliverB (now : Nat) (hmem : f ∈ s.toB) (hage : s.sent < f.pos + 2 ^ 32) :
    StreamInv iss (s.receive f.seg now) := by
  have hf := hs.toB f hmem
  obtain ⟨hstate, horphan, hkind⟩ := hs.bOpen
  unfold receive
  obtain ⟨una, wake, ⟨-, h⟩ | ⟨-, h⟩ | ⟨hpay, hseq, h⟩⟩ :=
    rcv_receiver now hstate horphan hkind hf.rst hf.fin
  · rw [h]
    have hnone := hs.keep (b := { s.b with sndUna := una }) ⟨rfl, rfl, rfl⟩ rfl hs.kept hs.small
      hs.toA hs.call
    simpa using hnone
  · rw [h]
    have hreply : ∀ f ∈ s.toA ++ [⟨s.queued.length, tcpBuildSegment { s.b with sndUna := una }
        s.b.sndNxt s.b.rcvNxt false true false [] false⟩], AckFlight iss s f :=
      forall_mem_append.2 ⟨hs.toA,
        forall_mem_singleton.2 ⟨le_rfl, fun _ => hs.bSeq, rfl, rfl, rfl⟩⟩
    have hanswer := hs.keep (b := { s.b with sndUna := una }) ⟨rfl, rfl, rfl⟩ rfl hs.kept hs.small
      hreply hs.call
    simpa [RcvOut.sendAck] using hanswer
  · rw [h]
    obtain ⟨-, hle, hmss, hdata⟩ := hs.accepted hf hage hpay hseq
    have hqueued := hs.enqueue
      (b := { s.b with sndUna := una, rcvQueue := s.b.rcvQueue ++ [f.seg.payload]
                       rcvNxt := u32 (s.b.rcvNxt + f.seg.payload.length) })
      ⟨rfl, rfl, rfl⟩ rfl rfl hpay hle hmss hdata s.b.sndNxt
    simpa [RcvOut.sendAck] using hqueued

theorem StreamInv.recv {len : Nat} (nonblock : Bool) (hlen : tcpMss ≤ len) : StreamInv iss
      { s with b := (tcpRecvmsg s.b len nonblock true).2
               returned := s.returned ++ recvBytes (tcpRecvmsg s.b len nonblock true).1 } := by
  obtain ⟨queue, htsk, hsub⟩ := tcpRecvmsg_tsk s.b len nonblock true
  have hfits : ReadFits s.b len := by
    refine .inr (.inr fun p hp => ?_)
    exact le_trans (hs.small p (mem_of_mem_head? hp)) hlen
  have hkeep := (tcpRecvmsg_keeps_iff s.b len nonblock).2 hfits
  refine hs.keep ?_ ?_ ?_ ?_ hs.toA hs.call
  · rw [htsk]
    exact ⟨rfl, rfl, rfl⟩
  · rw [htsk]
  · rw [append_assoc, hkeep]
    exact hs.kept
  · rw [htsk]
    exact fun p hp => hs.small p (hsub p hp)

theorem StreamInv.tickB (htick : tcpTimerSock s.b now room true = .kept t o) :
    StreamInv iss { s with b := t, toA := s.toA ++ o.toList.map (⟨s.queued.length, ·⟩) } := by
  have hkind := hs.bOpen.2.2
  rcases tcpTimerSock_kept htick with ⟨e, hne, -, -⟩ | ⟨⟨retries, deadline, rfl⟩, hout⟩
  · exact absurd hkind hne
  have hnone : o = none := by
    cases o with
    | none => rfl
    | some g => exact absurd hkind (hout g rfl).1
  rw [hnone]
  refine hs.keep ⟨rfl, rfl, rfl⟩ rfl hs.kept hs.small ?_ hs.call
  simpa using hs.toA

/-- Every operation that meets the condition keeps the invariant. -/
theorem StreamInv.step (h : StreamStep s op s') (hcare : op.Careful s) : StreamInv iss s' := by
  cases h with
  | start buf hidle => exact hs.start buf hidle
  | top c ptr hcall hpc => exact hs.top ptr hcall hpc
  | lock c ptr data now hcall hpc =>
    obtain ⟨before, hw, hframe⟩ := hs.frame hcall hpc
    exact hs.slotSection hw hframe (sendLock_cases s.a ptr data now)
  | wake c ptr data now hcall hpc =>
    obtain ⟨before, hw, hframe⟩ := hs.frame hcall hpc
    exact hs.slotSection hw hframe (.inr rfl)
  | emit c ptr seq ack data bytes hcall hpc hlen hbytes =>
    exact hs.emit hcall hpc hlen hbytes hcare
  | wait c n hcall hpc => exact hs.wait hcall hpc
  | ret c r hcall hpc => exact hs.ret hcall hpc
  | deliverA f now hmem _ => exact hs.deliverA now hmem hcare
  | deliverB f now hmem hage => exact hs.deliverB now hmem hage
  | tickA now room t o htick => exact hs.tickA htick
  | tickB now room t o htick => exact hs.tickB htick
  | recv len nonblock hlen => exact hs.recv nonblock hlen
  | lose toA toB hA hB =>
    have hrecv := hs.keep ⟨rfl, rfl, rfl⟩ rfl hs.kept hs.small (fun f hf => hs.toA f (hA f hf))
      hs.call
    exact hrecv.sameSender rfl rfl fun f hf => hrecv.toB f (hB f hf)

/-- And so does every run. -/
theorem CarefulStreamRun.inv (hrun : CarefulStreamRun s s') : StreamInv iss s' := by
  refine Run.invariant ?_ hrun hs
  rintro x y ⟨op, hop, hcare⟩ hx
  exact hx.step hop hcare

/-! ## The byte stream -/

theorem StreamInv.sound (h : StreamStep s op s') : op.Sound s := by
  cases h with
  | ret c r hcall hpc =>
    cases r with
    | error e => trivial
    | ok n =>
      intro d hd
      rw [hcall, Option.some.injEq] at hd
      subst hd
      obtain ⟨before, hw, hn, -, hall, -⟩ := hs.frame hcall hpc
      have hbase : s.written.length - c.buf.length = before.length := by
        rw [hw, length_append]
        omega
      refine ⟨hn, ?_⟩
      rw [hbase]
      rcases hall with hempty | hle
      · simp [hempty, slice]
      · rw [hs.queue, slice_take hle, hw]
        simp [slice]
  | _ => trivial

end

/-! ## A long run

Calls with a buffer of `TCP_MSS` bytes: the segment is sent, queued, acknowledged and read. -/

/-- What stays true throughout the run. -/
structure Healthy (s : StreamSys) : Prop where
  inv : StreamInv 1 s
  aErr : s.a.err = none
  aMss : s.a.mss = tcpMss
  bErr : s.b.skErr = none

/-- Between two calls: `n` bytes are sent and read. -/
structure AtRest (n : Nat) (s : StreamSys) : Prop extends Healthy s where
  call : s.call = none
  bQueue : s.b.rcvQueue = []
  sent : s.sent = n

/-- The next segment is in the slot and in the network. -/
structure InSlot (buf : List UInt8) (n : Nat) (s : StreamSys) : Prop extends Healthy s where
  kind : s.a.txKind = .data
  call : s.call = some ⟨buf, 0, .waiting tcpMss⟩
  bQueue : s.b.rcvQueue = []
  sent : s.sent = n + tcpMss
  queued : s.queued.length = n
  flight : ∃ g, ⟨n, g⟩ ∈ s.toB ∧ g.payload = buf

/-- An acknowledgment of the first `n` bytes is in the network. -/
def HasAck (n : Nat) (s : StreamSys) : Prop := ∃ g, ⟨n, g⟩ ∈ s.toA ∧ g.ackFlag = true

theorem HasAck.mono (h : HasAck n s) (hsub : ∀ f ∈ s.toA, f ∈ s'.toA) : HasAck n s' := by
  obtain ⟨g, hg, hflag⟩ := h
  exact ⟨g, hsub _ hg, hflag⟩

/-- A call fills the slot and sends the segment. -/
theorem AtRest.send (h : AtRest n s) (hbuf : buf.length = tcpMss) :
    ∃ s', CarefulStreamRun s s' ∧ InSlot buf n s' ∧ ∀ f ∈ s.toA, f ∈ s'.toA := by
  have hkind : s.a.txKind = .none := by
    have hcall := h.inv.call
    rw [h.call] at hcall
    exact hcall.1
  have hsent := h.sent
  have hstart := start s buf h.call
  have htop : sendTop s.a buf 0 (some 0) true = .copied 0 buf := by
    have hchunk : sendChunk s.a buf 0 = tcpMss := by
      rw [sendChunk, hbuf, h.aMss]
      rfl
    rw [sendTop, if_pos (by rw [hbuf]; decide), hchunk, if_neg (by decide)]
    simp only [if_true, drop_zero]
    rw [← hbuf, take_length]
  have hcopy := top
    { s with call := some ⟨buf, 0, .top⟩, written := s.written ++ buf }
    ⟨buf, 0, .top⟩ 0 rfl rfl
  simp only [htop] at hcopy
  have hcan := canSend_of_established (h.inv.aOpen h.aErr)
  have hslot : sendLock s.a 0 buf 0 =
      (.filled 0 s.a.sndNxt s.a.rcvNxt buf, tcpFillTx s.a 0 buf 0) := by
    simp [sendLock, sendSlot, h.aErr, hcan, hkind]
  have hlock := lock
    { s with call := some ⟨buf, 0, .copied 0 buf⟩
             written := s.written ++ buf }
    ⟨buf, 0, .copied 0 buf⟩ 0 buf 0 rfl rfl
  simp only [hslot] at hlock
  have hemit := emit
    { s with a := tcpFillTx s.a 0 buf 0
             call := some ⟨buf, 0, .filled 0 s.a.sndNxt s.a.rcvNxt buf⟩
             written := s.written ++ buf
             sent := s.sent + buf.length }
    ⟨buf, 0, .filled 0 s.a.sndNxt s.a.rcvNxt buf⟩ 0 s.a.sndNxt s.a.rcvNxt buf
    buf rfl rfl rfl (fun _ => rfl)
  have hrun : CarefulStreamRun s _ := .tail (.tail (.tail (.single ⟨_, hstart, trivial⟩)
    ⟨_, hcopy, trivial⟩) ⟨_, hlock, trivial⟩) ⟨_, hemit, h.aErr⟩
  refine ⟨_, hrun, ⟨⟨hrun.inv h.inv, h.aErr, h.aMss, h.bErr⟩, rfl, by rw [hbuf], h.bQueue, ?_,
    (h.inv.idle hkind h.aErr).trans hsent,
    dataSegment (tcpFillTx s.a 0 buf 0) s.a.sndNxt s.a.rcvNxt buf, mem_append_right _ ?_, rfl⟩,
    fun f hf => hf⟩
  · show s.sent + buf.length = n + tcpMss
    omega
  · rw [mem_singleton, ← hsent, Nat.add_sub_cancel]

/-- Once the slot holds no data, the call returns the length of its buffer. -/
theorem call_returns (herr : s.a.err = none) (hbuf : buf.length = tcpMss)
    (hkind : s.a.txKind = .none) (hcall : s.call = some ⟨buf, 0, .waiting tcpMss⟩) :
    CarefulStreamRun s { s with call := some ⟨buf, tcpMss, .done (.ok tcpMss)⟩ } := by
  have hwait := wait s _ tcpMss hcall rfl
  have hsec : sendWait s.a 0 tcpMss = (.top, tcpMss) := by
    simp [sendWait, herr, hkind]
  rw [hsec] at hwait
  have htop := top { s with call := some ⟨buf, tcpMss, .top⟩ }
    ⟨buf, tcpMss, .top⟩ 0 rfl rfl
  have hdone : sendTop s.a buf tcpMss (some 0) true = .done (.ok tcpMss) := by
    rw [sendTop, hbuf, if_neg (lt_irrefl _)]
  simp only [hdone] at htop
  exact .tail (.single ⟨_, hwait, trivial⟩) ⟨_, htop, trivial⟩

theorem tcpSeqGeq_self {x : Nat} (h : x < 2 ^ 32) : tcpSeqGeq x x = true := by
  have hx : u32 x = x := Nat.mod_eq_of_lt h
  have hsum : x + (2 ^ 32 - x) = 2 ^ 32 := by omega
  simp only [tcpSeqGeq, hx, hsum]
  decide

/-- An acknowledgment that covers the slot arrives and empties it. -/
theorem Healthy.acked (h : Healthy s) (hkind : s.a.txKind = .data) (hack : HasAck n s)
    (hage : s.sent < n + 2 ^ 32) (hgeq : tcpSeqGeq (u32 (1 + n)) (u32 (1 + s.sent)) = true) :
    ∃ g a toB, StreamStep s (.deliverA ⟨n, g⟩ 0) { s with a := a, toB := toB } ∧
      a.err = none ∧ a.mss = tcpMss ∧ a.txKind = .none := by
  obtain ⟨g, hmem, hflag⟩ := hack
  have hf := h.inv.toA _ hmem
  have hpay : g.payload = [] := hf.payload
  obtain ⟨una, huna⟩ := ackUna_eq s.a g.ack
  have hcover : tcpSeqGeq g.ack (u32 (s.a.txSeq + s.a.txLen)) = true := by
    rw [(h.inv.slot hkind).end_eq, hf.ack hflag]
    exact hgeq
  have hrcv : tcpRcvSock s.a g 0 =
      { tsk := tcpClearTx { s.a with sndUna := una }, wakeChild := true } := by
    rw [tcpRcvSock_plain 0 (.inl (h.inv.aOpen h.aErr)) hf.rst hf.fin]
    simp [rcvPayload, rcvAck, hflag, hpay, ackCoversData, hkind, hcover, huna]
  have hdeliver := deliverA s ⟨n, g⟩ 0 hmem hage
  simp only [hrcv] at hdeliver
  exact ⟨g, _, _, hdeliver, h.aErr, h.aMss, rfl⟩

/-- The receiver queues the segment and answers. -/
theorem InSlot.queue (h : InSlot buf n s) (hbuf : buf.length = tcpMss) :
    ∃ s', CarefulStreamRun s s' ∧ s'.a = s.a ∧ s'.call = s.call ∧ s'.sent = s.sent ∧
      s'.b.rcvQueue = [buf] ∧ s'.b.skErr = none ∧ HasAck (n + tcpMss) s' ∧
      ∀ f ∈ s.toA, f ∈ s'.toA := by
  obtain ⟨g, hmem, rfl⟩ := h.flight
  have hf := h.inv.toB _ hmem
  obtain ⟨hstate, horphan, hkind⟩ := h.inv.bOpen
  have hne : g.payload ≠ [] := by
    rw [← length_pos_iff, hbuf]
    decide
  have hmss : tcpMss < 2 ^ 32 := by decide
  have hage : s.sent < n + 2 ^ 32 := by
    rw [h.sent]
    omega
  have hseq : g.seq = s.b.rcvNxt := by
    rw [h.inv.bSeq, h.queued]
    exact (hf.data.resolve_left hne).1
  obtain ⟨una, wake, ⟨hfull, -⟩ | ⟨hother, -⟩ | ⟨-, -, hrcv⟩⟩ :=
    rcv_receiver 0 hstate horphan hkind hf.rst hf.fin
  · have := hfull hne
    rw [h.bQueue] at this
    exact absurd this (by decide)
  · exact absurd hseq hother
  refine ⟨s.receive g 0, .single ⟨_, deliverB s ⟨n, g⟩ 0 hmem hage, trivial⟩, rfl, rfl, rfl, ?_, ?_,
    ?_, fun f hf => mem_append_left _ hf⟩
  · simp [receive, hrcv, RcvOut.sendAck, h.bQueue]
  · simp [receive, hrcv, RcvOut.sendAck, h.bErr]
  · simp [HasAck, receive, hrcv, RcvOut.sendAck, tcpBuildSegment, h.queued, hbuf]

/-- The acknowledgment arrives and the slot is free again. -/
theorem InSlot.round (h : InSlot buf n s) (hbuf : buf.length = tcpMss) :
    ∃ s', CarefulStreamRun s s' ∧ Healthy s' ∧ s'.a.txKind = .none ∧ s'.call = s.call ∧
      s'.sent = s.sent ∧ s'.b.rcvQueue = [buf] ∧ HasAck (n + tcpMss) s' ∧
      ∀ f ∈ s.toA, f ∈ s'.toA := by
  obtain ⟨s1, hrun, ha, hcall, hsent, hqueue, hbErr, hack, hsub⟩ := h.queue hbuf
  have hs1 : Healthy s1 := ⟨hrun.inv h.inv, ha ▸ h.aErr, ha ▸ h.aMss, hbErr⟩
  have hend : s1.sent = n + tcpMss := hsent.trans h.sent
  obtain ⟨g, a, toB, hdeliver, haErr, haMss, hkind⟩ := hs1.acked (ha ▸ h.kind) hack (by omega)
    (by rw [hend]; exact tcpSeqGeq_self (u32_lt _))
  have hrun2 : CarefulStreamRun s _ := hrun.tail ⟨_, hdeliver, fun _ => by
    rw [hend]
    exact Nat.le_add_right _ _⟩
  exact ⟨_, hrun2, ⟨hrun2.inv h.inv, haErr, haMss, hbErr⟩, hkind, hcall, hsent, hqueue, hack, hsub⟩

/-- One call with its segment, up to the state in which everything is read. -/
theorem AtRest.round (h : AtRest n s) (hbuf : buf.length = tcpMss) :
    ∃ s', CarefulStreamRun s s' ∧ AtRest (n + tcpMss) s' ∧ HasAck (n + tcpMss) s' ∧
      ∀ f ∈ s.toA, f ∈ s'.toA := by
  obtain ⟨s1, hrun1, hslot, hsub1⟩ := h.send hbuf
  obtain ⟨s2, hrun2, hs2, hkind, hcall, hsent, hqueue, hack, hsub2⟩ := hslot.round hbuf
  have hrun3 := call_returns hs2.aErr hbuf hkind (hcall.trans hslot.call)
  have hret := ret { s2 with call := some ⟨buf, tcpMss, .done (.ok tcpMss)⟩ } _ _ rfl rfl
  have hrecv := recv { s2 with call := none } tcpMss false le_rfl
  have hread : (tcpRecvmsg s2.b tcpMss false true).2 = { s2.b with rcvQueue := [] } := by
    simp [tcpRecvmsg, tcpRecvSection, hs2.inv.bOpen.1, hs2.bErr, hqueue]
  simp only [hread] at hrecv
  have hrun : CarefulStreamRun s _ := ((hrun1.trans hrun2).trans hrun3).tail ⟨_, hret, trivial⟩
    |>.tail ⟨_, hrecv, trivial⟩
  exact ⟨_, hrun, ⟨⟨hrun.inv h.inv, hs2.aErr, hs2.aMss, hs2.bErr⟩, rfl, rfl,
    hsent.trans hslot.sent⟩, hack, fun f hf => hsub2 f (hsub1 f hf)⟩

/-- A connection on which nothing was sent. -/
def StreamSys.fresh : StreamSys where
  a := .withQueue []
  b := .withQueue []
  call := none
  toA := []
  toB := []
  written := []
  queued := []
  returned := []
  sent := 0

theorem StreamSys.fresh_initial : fresh.Initial := by
  refine ⟨rfl, rfl, rfl, by decide, rfl, rfl, rfl, rfl, by decide, rfl, ⟨rfl, rfl, rfl, rfl⟩,
    forall_mem_nil _, forall_mem_nil _⟩

theorem StreamSys.fresh_atRest : AtRest 0 fresh :=
  ⟨⟨fresh_initial.inv, rfl, rfl, rfl⟩, rfl, rfl, rfl⟩

/-- After any number of rounds the acknowledgment of the first segment may still be in the
network. -/
theorem rounds_reachable (hbuf : buf.length = tcpMss) (k : Nat) :
    ∃ s, CarefulStreamRun fresh s ∧ AtRest ((k + 1) * tcpMss) s ∧ HasAck tcpMss s := by
  induction k with
  | zero =>
    obtain ⟨s, hrun, hrest, hack, -⟩ := fresh_atRest.round hbuf
    exact ⟨s, hrun, by rwa [zero_add, one_mul], hack⟩
  | succ k ih =>
    obtain ⟨s, hrun, hrest, hack⟩ := ih
    obtain ⟨s', hrun', hrest', -, hsub⟩ := hrest.round hbuf
    refine ⟨s', hrun.trans hrun', ?_, hack.mono hsub⟩
    rwa [← Nat.succ_mul] at hrest'

/-- The receiver reads a beginning of what was written, and a call that returns its length has all
of its bytes queued at the receiver. This holds in every run, from a connection on which nothing was
sent, in which no acknowledgment more than `2 ^ 31` bytes old is delivered to a sender with data in
its slot and every segment is first sent before the connection has timed out. -/
theorem stream_in_order {s₀ s : StreamSys} (hinit : s₀.Initial) (hrun : CarefulStreamRun s₀ s) :
    s.returned <+: s.written ∧ ∀ op s', StreamStep s op s' → op.Sound s := by
  have hinv := CarefulStreamRun.inv hinit.inv hrun
  refine ⟨?_, fun op s' hstep => hinv.sound hstep⟩
  have hreturned : s.returned <+: s.queued := ⟨_, hinv.kept⟩
  have hqueued : s.queued <+: s.written := by
    rw [hinv.queue]
    exact take_prefix _ _
  exact hreturned.trans hqueued

/-- A call with a full segment that is sent, queued and acknowledged. -/
theorem stream_in_order_one_segment :
    ∃ s s', CarefulStreamRun StreamSys.fresh s ∧ StreamStep s (.ret (.ok tcpMss)) s' ∧
      s.returned <+: s.written ∧ (StreamOp.ret (.ok tcpMss)).Sound s := by
  have hbuf : (replicate tcpMss (0 : UInt8)).length = tcpMss := length_replicate
  obtain ⟨s1, hrun1, hslot, -⟩ := fresh_atRest.send hbuf
  obtain ⟨s2, hrun2, hs2, hkind, hcall, -⟩ := hslot.round hbuf
  have hrun := (hrun1.trans hrun2).trans
    (call_returns hs2.aErr hbuf hkind (hcall.trans hslot.call))
  have hret := ret
    { s2 with call := some ⟨replicate tcpMss 0, tcpMss, .done (.ok tcpMss)⟩ } _ _ rfl rfl
  obtain ⟨hread, hsound⟩ := stream_in_order fresh_initial hrun
  exact ⟨_, _, hrun, hret, hread, hsound _ _ hret⟩

/-- After 1470880 full segments the acknowledgment of the first one arrives again. The sender takes
it for one of the segment in its slot, and the call returns although nothing of its buffer has
reached the receiver. -/
theorem stream_old_ack : ∃ s s', StreamRun StreamSys.fresh s ∧ StreamStep s (.ret (.ok tcpMss)) s' ∧
      ¬ (StreamOp.ret (.ok tcpMss)).Sound s := by
  have hbuf : (replicate tcpMss (0 : UInt8)).length = tcpMss := length_replicate
  obtain ⟨s0, hrun0, hrest, hack⟩ := rounds_reachable hbuf 1470879
  obtain ⟨s, hrun1, hslot, hsub⟩ := hrest.send hbuf
  have hmss : tcpMss = 1460 := rfl
  have hsent := hslot.sent
  have hfar : Serial.diff (2 ^ 32) ((1 + tcpMss) % 2 ^ 32) ((1 + s.sent) % 2 ^ 32) < 2 ^ 31 :=
    Serial.diff_lt_of_far rfl (by omega) (by omega)
  obtain ⟨g, a, toB, hdeliver, herr, -, hkind⟩ := hslot.toHealthy.acked hslot.kind
    (hack.mono hsub) (by omega) (decide_eq_true hfar)
  have hrun2 := call_returns (s := { s with a := a, toB := toB }) herr hbuf hkind hslot.call
  have hreach : StreamRun fresh s :=
    CarefulStreamRun.streamRun (hrun0.trans hrun1)
  refine ⟨_, _, (hreach.tail ⟨_, hdeliver⟩).trans hrun2.streamRun,
    .ret _ ⟨replicate tcpMss 0, tcpMss, .done (.ok tcpMss)⟩ _ rfl rfl, ?_⟩
  -- the buffer begins where the bytes queued at the receiver end
  intro hsound
  obtain ⟨-, hslice⟩ := hsound _ rfl
  have hlen := congrArg length hslice
  have hqueued := hslot.queued
  have hwritten := hslot.inv.bound.2.1
  simp only [slice, length_take, length_drop, length_replicate] at hlen
  omega

/-- The transfer is stop and wait: in every careful run at most one segment is between what was
queued at the receiver and what was sent, the numbers of both ends count these bytes, and a segment
in flight to the receiver carries what was written at its position, or bytes queued already. -/
theorem stream_stop_and_wait {s₀ s : StreamSys} (hinit : s₀.Initial)
    (hrun : CarefulStreamRun s₀ s) :
    (s.queued.length ≤ s.sent ∧ s.sent ≤ s.written.length ∧
        s.sent ≤ s.queued.length + tcpMss) ∧
      s.a.sndNxt = u32 (s₀.a.sndNxt + s.sent) ∧
      s.b.rcvNxt = u32 (s₀.a.sndNxt + s.queued.length) ∧
      ∀ f ∈ s.toB, f.seg.payload = slice s.written f.pos f.seg.payload.length ∨
        f.pos + f.seg.payload.length ≤ s.queued.length := by
  have hinv := CarefulStreamRun.inv hinit.inv hrun
  refine ⟨hinv.bound, hinv.aSeq, hinv.bSeq, fun f hf => ?_⟩
  rcases (hinv.toB f hf).data with hnil | ⟨-, -, -, hdata⟩
  · left
    rw [hnil]
    rfl
  · exact hdata

/-- A full segment that is sent and not yet queued. -/
theorem stream_stop_and_wait_one_segment : ∃ s, CarefulStreamRun fresh s ∧ s.sent = tcpMss ∧
    s.sent ≤ s.queued.length + tcpMss := by
  obtain ⟨s, hrun, hslot, -⟩ := fresh_atRest.send (@length_replicate _ tcpMss 0)
  refine ⟨s, hrun, hslot.sent.trans (zero_add tcpMss), ?_⟩
  exact (stream_stop_and_wait fresh_initial hrun).1.2.2

end BrkKernel.Net
