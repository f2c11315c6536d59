import BrkKernel.Kern.Base

/-!
# TCP sockets

The protocol part of `net/tcp.c`: what an incoming segment, a timer tick and the socket calls do to
one connection. Each definition is what the source does while it holds `tcp_lock` (and the socket's
own lock inside it); what happens between two locked sections is left to the modules that let calls
run at the same time.

Sequence numbers are natural numbers below `2 ^ 32` with wrapping arithmetic. `tx_data` is a pointer
to a `kmalloc`ed copy; the source compares this pointer, so it is kept beside the bytes.

`rcvOpen_sendSide` and `tcpRcvSock_slot` say what a segment can do to the transmit slot,
`tcpRcvSock_rcvQueue` what it can do to the receive queue. The modules about reading, sending and
the whole connection use only these.
-/

set_option autoImplicit false

namespace BrkKernel.Net

/-- `TCP_MSS`. -/
def tcpMss : Nat := 1460

/-- `TCP_DEFAULT_MSS`. -/
def tcpDefaultMss : Nat := 536

/-- `TCP_RCV_QUEUE_MAX`. -/
def tcpRcvQueueMax : Nat := 64

/-- `TCP_MAX_RETRIES`. -/
def tcpMaxRetries : Nat := 5

/-- `TCP_RTO_NS`. -/
def tcpRtoNs : Nat := 1000000000

/-- `TCP_TIME_WAIT_NS`. -/
def tcpTimeWaitNs : Nat := 2000000000

/-- `TCP_FIN_WAIT2_NS`. -/
def tcpFinWait2Ns : Nat := 10000000000

/-- `TCP_SYN_RECV_NS`. -/
def tcpSynRecvNs : Nat := 10000000000

/-- `enum tcp_state`. -/
inductive TcpState where
  | close | listen | synSent | synRecv | established | finWait1 | finWait2 | closeWait | lastAck
  | timeWait
deriving DecidableEq, Repr

/-- `enum tcp_tx_kind`. -/
inductive TxKind where
  | none | syn | data | fin
deriving DecidableEq, Repr

/-- `struct tcp_sock`, with the fields of the `struct sock` inside it that the protocol uses. The
receive queue holds the payloads of the queued buffers; `hasListener` and `onAcceptQueue` stand for
the `listener` pointer and the `accept_node` of a child. -/
structure TcpSock where
  state : TcpState
  iss : Nat
  irs : Nat
  sndUna : Nat
  sndNxt : Nat
  sndWnd : Nat
  rcvNxt : Nat
  rcvWnd : Nat
  mss : Nat
  txKind : TxKind
  txPtr : Option Nat
  txData : List UInt8
  txLen : Nat
  txSeq : Nat
  txRetries : Nat
  rtoDeadlineNs : Nat
  orphan : Bool
  createdNs : Nat
  timeWaitDeadlineNs : Nat
  finWait2DeadlineNs : Nat
  err : Option Errno
  hasListener : Bool
  onAcceptQueue : Bool
  connected : Bool
  rcvQueue : List (List UInt8)
  skErr : Option Errno
  eof : Bool
  shutdown : Bool
deriving DecidableEq

/-- The fields of a segment that the receiver looks at. -/
structure Segment where
  seq : Nat
  ack : Nat
  synFlag : Bool
  ackFlag : Bool
  finFlag : Bool
  rstFlag : Bool
  window : Nat
  /-- The value of the maximum segment size option, `0` when there is none. -/
  mss : Nat
  payload : List UInt8
deriving DecidableEq

/-- `tcp_build_segment`, as far as the peer can tell. No segment of this kernel has flag `RST`. -/
def tcpBuildSegment (t : TcpSock) (seq ack : Nat) (synFlag ackFlag finFlag : Bool)
    (data : List UInt8) (withMss : Bool) : Segment where
  seq
  ack
  synFlag
  ackFlag
  finFlag
  rstFlag := false
  window := u16 t.rcvWnd
  mss := if withMss then tcpMss else 0
  payload := data

/-- `tcp_seq_after`: the difference is positive as a signed 32-bit number. -/
def tcpSeqAfter (a b : Nat) : Bool :=
  0 < u32 (a + (2 ^ 32 - u32 b)) && u32 (a + (2 ^ 32 - u32 b)) < 2 ^ 31

/-- `tcp_seq_geq`. -/
def tcpSeqGeq (a b : Nat) : Bool := u32 (a + (2 ^ 32 - u32 b)) < 2 ^ 31

/-- `tcp_clear_tx_locked`. -/
def tcpClearTx (t : TcpSock) : TcpSock :=
  { t with txPtr := none, txData := [], txLen := 0, txKind := .none, txRetries := 0
           rtoDeadlineNs := 0 }

/-- `tcp_set_error_locked`. -/
def tcpSetError (t : TcpSock) (e : Errno) : TcpSock :=
  { tcpClearTx { t with err := some e, state := .close } with skErr := some e, eof := true }

/-! ## `tcp_rcv` -/

/-- The effect of a segment on a connection, up to the point where `tcp_lock` is dropped: whether
the buffer was queued, the segment to be sent in answer, and who is woken. -/
structure RcvOut where
  tsk : TcpSock
  queued : Bool := false
  reply : Option Segment := none
  wakeChild : Bool := false
  wakeListener : Bool := false

/-- The answer with flag `ACK` that most branches ask for. -/
def RcvOut.sendAck (o : RcvOut) : RcvOut :=
  { o with
    reply := some (tcpBuildSegment o.tsk o.tsk.sndNxt o.tsk.rcvNxt false true false [] false) }

/-- The `SYN | ACK` answer. -/
def RcvOut.sendSynAck (o : RcvOut) : RcvOut :=
  { o with reply := some (tcpBuildSegment o.tsk o.tsk.iss o.tsk.rcvNxt true true false [] true) }

/-- `mss ? min(mss, TCP_MSS) : TCP_DEFAULT_MSS`. -/
def chooseMss (mss : Nat) : Nat := if mss ≠ 0 then min mss tcpMss else tcpDefaultMss

/-- A segment for a socket in state `TCP_SYN_SENT`. -/
def rcvSynSent (o : RcvOut) (g : Segment) : RcvOut :=
  if g.synFlag && g.ackFlag && g.ack == o.tsk.sndNxt then
    RcvOut.sendAck
      { o with
        tsk := tcpClearTx
          { o.tsk with irs := g.seq, rcvNxt := u32 (g.seq + 1), sndUna := g.ack, sndNxt := g.ack
                       sndWnd := g.window, mss := chooseMss g.mss, state := .established
                       connected := true }
        wakeChild := true }
  else o

/-- `snd_una` follows an acknowledgment of data that was sent. -/
def ackUna (t : TcpSock) (ack : Nat) : TcpSock :=
  if tcpSeqAfter ack t.sndUna && !tcpSeqAfter ack t.sndNxt then { t with sndUna := ack } else t

/-- Whether the acknowledgment covers the data in the transmit slot. -/
def ackCoversData (t : TcpSock) (ack : Nat) : Bool :=
  t.txKind == .data && tcpSeqGeq ack (u32 (t.txSeq + t.txLen))

/-- Whether the acknowledgment covers the `FIN` in the transmit slot. -/
def ackCoversFin (t : TcpSock) (ack : Nat) : Bool :=
  t.txKind == .fin && tcpSeqGeq ack (u32 (t.txSeq + 1))

/-- The part of `tcp_rcv` under `if (tflags & TCP_ACK)`. A slot cleared by the first test is not
tested again by the second. -/
def rcvAck (o : RcvOut) (g : Segment) : RcvOut :=
  if g.ackFlag then
    if ackCoversData o.tsk g.ack || ackCoversFin o.tsk g.ack then
      { o with tsk := tcpClearTx (ackUna o.tsk g.ack), wakeChild := true }
    else { o with tsk := ackUna o.tsk g.ack }
  else o

/-- The part of `tcp_rcv` under `if (payload_len)`. -/
def rcvPayload (o : RcvOut) (g : Segment) : RcvOut :=
  if g.payload.length ≠ 0 then
    if g.seq = o.tsk.rcvNxt then
      if o.tsk.orphan then
        RcvOut.sendAck
          { o with tsk := { o.tsk with rcvNxt := u32 (o.tsk.rcvNxt + g.payload.length) } }
      else if o.tsk.rcvQueue.length < tcpRcvQueueMax then
        RcvOut.sendAck
          { o with
            tsk := { o.tsk with rcvQueue := o.tsk.rcvQueue ++ [g.payload]
                                rcvNxt := u32 (o.tsk.rcvNxt + g.payload.length) }
            queued := true
            wakeChild := true }
      else o
    else o.sendAck
  else o

/-- The state after a `FIN` of the peer. -/
def TcpState.afterFin : TcpState → TcpState
  | .established => .closeWait
  | .finWait1 => .timeWait
  | .finWait2 => .timeWait
  | s => s

/-- The part of `tcp_rcv` under `if (tflags & TCP_FIN)`. -/
def rcvFin (o : RcvOut) (g : Segment) (now : Nat) : RcvOut :=
  if g.finFlag then
    if u32 (g.seq + g.payload.length) = o.tsk.rcvNxt then
      RcvOut.sendAck
        { o with
          tsk := { o.tsk with
            rcvNxt := u32 (o.tsk.rcvNxt + 1)
            state := o.tsk.state.afterFin
            timeWaitDeadlineNs :=
              if o.tsk.state = .finWait1 ∨ o.tsk.state = .finWait2 then now + tcpTimeWaitNs
              else o.tsk.timeWaitDeadlineNs
            eof := true }
          wakeChild := true }
    else o.sendAck
  else o

/-- The last two tests of `tcp_rcv`: our own `FIN` is acknowledged. -/
def rcvClose (o : RcvOut) (g : Segment) (now : Nat) : RcvOut :=
  if o.tsk.state = .finWait1 ∧ g.ackFlag ∧ g.ack = o.tsk.sndNxt then
    { o with tsk := { o.tsk with state := .finWait2, finWait2DeadlineNs := now + tcpFinWait2Ns } }
  else if o.tsk.state = .lastAck ∧ g.ackFlag ∧ g.ack = o.tsk.sndNxt then
    { o with tsk := { o.tsk with state := .close } }
  else o

/-- The tests of `tcp_rcv` from the one for `TCP_ACK` on. -/
def rcvOpen (o : RcvOut) (g : Segment) (now : Nat) : RcvOut :=
  rcvClose (rcvFin (rcvPayload (rcvAck o g) g) g now) g now

/-- A socket in state `TCP_SYN_RECV` whose handshake the segment completes. -/
def rcvEstablish (o : RcvOut) (g : Segment) : RcvOut :=
  { o with
    tsk := { o.tsk with sndUna := g.ack, sndWnd := g.window, state := .established
                        connected := true
                        onAcceptQueue := o.tsk.onAcceptQueue || o.tsk.hasListener }
    wakeListener := o.tsk.hasListener && !o.tsk.onAcceptQueue }

/-- `tcp_rcv` from the test for `TCP_RST` on. A child that was just made comes with the `SYN | ACK`
that is to be sent for it, and this is sent even if the segment has flag `RST`. -/
def rcvSegment (o : RcvOut) (g : Segment) (now : Nat) : RcvOut :=
  if g.rstFlag then
    { o with
      tsk := tcpSetError o.tsk (if o.tsk.state = .synSent then .econnrefused else .econnreset)
      wakeChild := true }
  else if o.tsk.state = .synSent then rcvSynSent o g
  else if o.tsk.state = .synRecv then
    if g.synFlag && !g.ackFlag then o.sendSynAck
    else if !g.ackFlag || g.ack != o.tsk.sndNxt then o
    else rcvOpen (rcvEstablish o g) g now
  else rcvOpen o g now

/-- `tcp_rcv` for the socket that the segment belongs to. A listening socket drops it. -/
def tcpRcvSock (t : TcpSock) (g : Segment) (now : Nat) : RcvOut :=
  if t.state = .listen then { tsk := t } else rcvSegment { tsk := t } g now

/-! ## The timer -/

/-- What `tcp_timer_tick` does with one socket. -/
inductive TimerOut where
  /-- The socket is unlinked and freed. -/
  | freed
  | kept (tsk : TcpSock) (out : Option Segment)

/-- The segment in the transmit slot, as it is built for a retransmission. -/
def TcpSock.retransmit (t : TcpSock) : Segment :=
  match t.txKind with
  | .syn => tcpBuildSegment t t.txSeq 0 true false false [] true
  | .data => tcpBuildSegment t t.txSeq t.rcvNxt false true false (t.txData.take t.txLen) false
  | _ => tcpBuildSegment t t.txSeq t.rcvNxt false true true [] false

/-- Whether an orphaned socket has reached its end. -/
def TcpSock.expired (t : TcpSock) (now : Nat) : Bool :=
  (t.state == .timeWait && t.timeWaitDeadlineNs ≤ now) || t.state == .close ||
    (t.state == .finWait2 && t.finWait2DeadlineNs != 0 && t.finWait2DeadlineNs ≤ now)

/-- One socket in `tcp_timer_tick`. `room` says that the batch of retransmissions is not full, and
`built` that `tcp_build_segment` succeeds. The clock is read before the lock is taken, so a socket
can be younger than `now`, and the difference then wraps. -/
def tcpTimerSock (t : TcpSock) (now : Nat) (room built : Bool) : TimerOut :=
  if t.state = .synRecv ∧ t.orphan = false ∧
      tcpSynRecvNs ≤ u64 (now + (2 ^ 64 - u64 t.createdNs)) then .freed
  else if t.orphan && t.expired now then .freed
  else if t.txKind = .none ∨ now < t.rtoDeadlineNs then .kept t none
  else if tcpMaxRetries ≤ t.txRetries then
    if t.orphan then .freed else .kept (tcpSetError t .etimedout) none
  else if !room then .kept t none
  else
    .kept { t with txRetries := t.txRetries + 1
                   rtoDeadlineNs := now + tcpRtoNs * 2 ^ min (t.txRetries + 1) 3 }
      (if built then some t.retransmit else none)

/-! ## Sending -/

/-- Whether data may be sent: the state test of `tcp_sendmsg`, `tcp_shutdown` and `tcp_release`. -/
def TcpSock.canSend (t : TcpSock) : Bool := t.state == .established || t.state == .closeWait

/-- `tcp_sendmsg` puts a copy of `data` into the free transmit slot. -/
def tcpFillTx (t : TcpSock) (ptr : Nat) (data : List UInt8) (now : Nat) : TcpSock :=
  { t with sndNxt := u32 (t.sndNxt + data.length), txKind := .data, txPtr := some ptr
           txData := data, txLen := u16 data.length, txSeq := t.sndNxt, txRetries := 0
           rtoDeadlineNs := now + tcpRtoNs }

/-- `tcp_sendmsg` takes its segment back when sending it failed, unless the slot has been given to
another one. Only the address of the copy is compared. -/
def tcpUndoTx (t : TcpSock) (ptr seq : Nat) : TcpSock :=
  if t.txKind = .data ∧ t.txPtr = some ptr then { tcpClearTx t with sndNxt := seq } else t

/-- Where a call of `tcp_sendmsg` is. -/
inductive SendPc where
  /-- At the test of the loop. -/
  | top
  /-- The copy is made and `tcp_lock` is to be taken. -/
  | copied (ptr : Nat) (data : List UInt8)
  /-- Asleep until the transmit slot is free. -/
  | sleeping (ptr : Nat) (data : List UInt8)
  /-- The slot is filled and the lock dropped; the segment is to be sent. -/
  | filled (ptr seq ack : Nat) (data : List UInt8)
  /-- Sending failed; the lock is to be taken to clear the slot. -/
  | failed (ptr seq : Nat) (e : Errno)
  /-- The segment is sent; the call waits until the slot no longer holds data. -/
  | waiting (n : Nat)
  | done (r : Except Errno Nat)

/-- The number of bytes of the next segment, `min(len - off, tsk->mss)`. -/
def sendChunk (t : TcpSock) (buf : List UInt8) (off : Nat) : Nat := min (buf.length - off) t.mss

/-- `tcp_sendmsg` from the test of the loop to the copy, with the answer of `kmalloc` and of
`copy_from_user`. -/
def sendTop (t : TcpSock) (buf : List UInt8) (off : Nat) (alloc : Option Nat) (copyOk : Bool) :
    SendPc :=
  if off < buf.length then
    if sendChunk t buf off = 0 then .done (.ok buf.length)
    else
      match alloc with
      | none => .done (.error .enomem)
      | some ptr =>
        if copyOk then .copied ptr ((buf.drop off).take (sendChunk t buf off))
        else .done (.error .efault)
  else .done (.ok buf.length)

/-- `tcp_sendmsg` from the loop that waits for the slot to the end of the locked section. -/
def sendSlot (t : TcpSock) (ptr : Nat) (data : List UInt8) (now : Nat) : SendPc × TcpSock :=
  match t.err with
  | some e => (.done (.error e), t)
  | none =>
    if t.txKind ≠ .none then (.sleeping ptr data, t)
    else if t.canSend then (.filled ptr t.sndNxt t.rcvNxt data, tcpFillTx t ptr data now)
    else (.done (.error .enotconn), t)

/-- The whole locked section of `tcp_sendmsg` before a segment is sent. -/
def sendLock (t : TcpSock) (ptr : Nat) (data : List UInt8) (now : Nat) : SendPc × TcpSock :=
  match t.err with
  | some e => (.done (.error e), t)
  | none => if t.canSend then sendSlot t ptr data now else (.done (.error .enotconn), t)

/-- The loop of `tcp_sendmsg` that waits for the acknowledgment of `n` bytes: how the call goes on,
and how far it has come. -/
def sendWait (t : TcpSock) (off n : Nat) : SendPc × Nat :=
  match t.err with
  | some e => (.done (.error e), off)
  | none => if t.txKind = .data then (.waiting n, off) else (.top, off + n)

/-- The data segment that `tcp_sendmsg` sends after it filled the slot. -/
def dataSegment (t : TcpSock) (seq ack : Nat) (data : List UInt8) : Segment :=
  tcpBuildSegment t seq ack false true false data false

/-! ## Closing -/

/-- The part of `tcp_shutdown` and of `tcp_release` that starts closing an open connection. -/
def tcpStartFin (t : TcpSock) (now : Nat) : TcpSock :=
  { tcpClearTx t with
    sndNxt := u32 (t.sndNxt + 1), txKind := .fin, txSeq := t.sndNxt
    rtoDeadlineNs := now + tcpRtoNs
    state := if t.state = .closeWait then .lastAck else .finWait1 }

/-- The `FIN` that goes with `tcpStartFin`. -/
def TcpSock.finSegment (t : TcpSock) : Segment :=
  tcpBuildSegment t t.sndNxt t.rcvNxt false true true [] false

/-- `tcp_shutdown` with `SHUT_WR` or `SHUT_RDWR`, under `tcp_lock`. -/
def tcpShutdownWr (t : TcpSock) (now : Nat) : TcpSock × Option Segment :=
  if t.canSend then (tcpStartFin t now, some t.finSegment) else (t, none)

/-- `tcp_shutdown` with `SHUT_RD` or `SHUT_RDWR`, under the socket's lock. -/
def tcpShutdownRd (t : TcpSock) : TcpSock := { t with shutdown := true, eof := true }

/-- What `tcp_release` leaves of the socket: nothing, or an orphan that the timer will free. -/
inductive ReleaseOut where
  | freed
  | orphaned (tsk : TcpSock) (out : Option Segment)

/-- `tcp_release`. The receive queue is purged; a listening socket is freed with its children. -/
def tcpReleaseSock (t : TcpSock) (now : Nat) : ReleaseOut :=
  if t.canSend then
    .orphaned { tcpStartFin t now with orphan := true, rcvQueue := [] } (some t.finSegment)
  else if t.state = .finWait1 ∨ t.state = .finWait2 ∨ t.state = .lastAck ∨ t.state = .timeWait then
    .orphaned
      { t with
        orphan := true
        rcvQueue := []
        timeWaitDeadlineNs :=
          if t.state = .timeWait ∧ t.timeWaitDeadlineNs = 0 then now + tcpTimeWaitNs
          else t.timeWaitDeadlineNs
        finWait2DeadlineNs :=
          if t.state = .finWait2 ∧ t.finWait2DeadlineNs = 0 then now + tcpFinWait2Ns
          else t.finWait2DeadlineNs }
      none
  else .freed

/-! ## Receiving -/

/-- How the locked section of `tcp_recvmsg` ends. -/
inductive RecvEnd where
  | ret (r : Except Errno (List UInt8))
  | sleep
  | got (payload : List UInt8)

/-- The locked section of `tcp_recvmsg` on a socket that does not listen. -/
def tcpRecvSection (t : TcpSock) (nonblock : Bool) : RecvEnd × TcpSock :=
  match t.skErr with
  | some e => (.ret (.error e), t)
  | none =>
    match t.rcvQueue with
    | [] =>
      if t.eof then (.ret (.ok []), t)
      else if nonblock then (.ret (.error .eagain), t)
      else (.sleep, t)
    | payload :: rest => (.got payload, { t with rcvQueue := rest })

/-- The copy of `tcp_recvmsg` into a buffer of `len` bytes. The buffer of the segment is freed
afterwards, whether or not all of it was copied. -/
def tcpRecvCopy (payload : List UInt8) (len : Nat) (copyOk : Bool) : Except Errno (List UInt8) :=
  if min len payload.length ≠ 0 ∧ copyOk = false then .error .efault
  else .ok (payload.take (min len payload.length))

/-! ## What a segment can do -/

/-- The fields that `tcp_sendmsg` works with. -/
structure SendSide where
  txKind : TxKind
  txPtr : Option Nat
  txData : List UInt8
  txLen : Nat
  txSeq : Nat
  err : Option Errno
  mss : Nat
  sndNxt : Nat

def TcpSock.sendSide (t : TcpSock) : SendSide where
  txKind := t.txKind
  txPtr := t.txPtr
  txData := t.txData
  txLen := t.txLen
  txSeq := t.txSeq
  err := t.err
  mss := t.mss
  sndNxt := t.sndNxt

/-- The states of a connection on which this side has sent its `FIN`, or that is over. -/
def TcpState.closing : TcpState → Bool
  | .close | .finWait1 | .finWait2 | .lastAck | .timeWait => true
  | _ => false

theorem TcpSock.canSend_iff (t : TcpSock) :
    t.canSend = true ↔ t.state = .established ∨ t.state = .closeWait := by
  simp [TcpSock.canSend]

theorem chooseMss_pos (mss : Nat) : 0 < chooseMss mss := by
  unfold chooseMss
  split
  · simp only [tcpMss]
    omega
  · decide

theorem chooseMss_le (mss : Nat) : chooseMss mss ≤ tcpMss := by
  unfold chooseMss
  split
  · exact min_le_right _ _
  · decide

theorem ackUna_eq (t : TcpSock) (ack : Nat) : ∃ una, ackUna t ack = { t with sndUna := una } := by
  unfold ackUna
  split
  · exact ⟨ack, rfl⟩
  · exact ⟨t.sndUna, rfl⟩

/-- The three ways in which the acknowledgment number of a segment can act. -/
theorem rcvAck_cases (o : RcvOut) (g : Segment) : ∃ una wake, rcvAck o g =
        { o with tsk := { o.tsk with sndUna := una }, wakeChild := wake } ∨
      g.ackFlag = true ∧ (ackCoversData o.tsk g.ack || ackCoversFin o.tsk g.ack) = true ∧
        rcvAck o g =
          { o with tsk := tcpClearTx { o.tsk with sndUna := una }, wakeChild := wake } := by
  obtain ⟨una, huna⟩ := ackUna_eq o.tsk g.ack
  unfold rcvAck
  split
  · rename_i hack
    split
    · rename_i hcover
      exact ⟨una, true, .inr ⟨hack, hcover, by rw [huna]⟩⟩
    · exact ⟨una, o.wakeChild, .inl (by rw [huna])⟩
  · exact ⟨o.tsk.sndUna, o.wakeChild, .inl rfl⟩

/-- The payload moves `rcv_nxt` and the receive queue only. -/
theorem rcvPayload_tsk (o : RcvOut) (g : Segment) :
    ∃ nxt queue, (rcvPayload o g).tsk = { o.tsk with rcvNxt := nxt, rcvQueue := queue } := by
  unfold rcvPayload RcvOut.sendAck
  repeat' split
  · exact ⟨_, o.tsk.rcvQueue, rfl⟩
  · exact ⟨_, _, rfl⟩
  · exact ⟨_, _, rfl⟩
  · exact ⟨_, _, rfl⟩
  · exact ⟨_, _, rfl⟩

/-- A `FIN` of the peer leaves the sending side and the receive queue alone. -/
theorem rcvFin_tsk (o : RcvOut) (g : Segment) (now : Nat) :
    ∃ nxt state deadline eof,
      (nxt = o.tsk.rcvNxt ∧ state = o.tsk.state ∨ state = o.tsk.state.afterFin) ∧
      (rcvFin o g now).tsk = { o.tsk with rcvNxt := nxt, state := state
                                          timeWaitDeadlineNs := deadline, eof := eof } := by
  unfold rcvFin
  by_cases hfin : g.finFlag = true
  · rw [if_pos hfin]
    by_cases hseq : u32 (g.seq + g.payload.length) = o.tsk.rcvNxt
    · rw [if_pos hseq]
      exact ⟨_, _, _, _, .inr rfl, rfl⟩
    · rw [if_neg hseq]
      exact ⟨_, _, _, _, .inl ⟨rfl, rfl⟩, rfl⟩
  · rw [if_neg hfin]
    exact ⟨_, _, _, _, .inl ⟨rfl, rfl⟩, rfl⟩

theorem rcvClose_tsk (o : RcvOut) (g : Segment) (now : Nat) :
    ∃ state deadline, (state = o.tsk.state ∨ o.tsk.state = .finWait1 ∧ state = .finWait2 ∨
        o.tsk.state = .lastAck ∧ state = .close) ∧
      (rcvClose o g now).tsk = { o.tsk with state := state, finWait2DeadlineNs := deadline } := by
  unfold rcvClose
  split
  · rename_i h
    exact ⟨_, _, .inr (.inl ⟨h.1, rfl⟩), rfl⟩
  split
  · rename_i h
    exact ⟨_, _, .inr (.inr ⟨h.1, rfl⟩), rfl⟩
  · exact ⟨_, _, .inl rfl, rfl⟩

/-- All fields of the sending side, its numbers and its timer included. -/
def TcpSock.sender (t : TcpSock) : SendSide × Nat × Nat × Nat × Nat :=
  (t.sendSide, t.sndUna, t.sndWnd, t.txRetries, t.rtoDeadlineNs)

/-- From the test for `TCP_ACK` on, only that test works on the sending side. -/
theorem rcvOpen_sender (o : RcvOut) (g : Segment) (now : Nat) :
    (rcvOpen o g now).tsk.sender = (rcvAck o g).tsk.sender := by
  obtain ⟨nxt, queue, hpay⟩ := rcvPayload_tsk (rcvAck o g) g
  obtain ⟨_, _, _, _, -, hfin⟩ := rcvFin_tsk (rcvPayload (rcvAck o g) g) g now
  obtain ⟨_, _, -, hclose⟩ := rcvClose_tsk (rcvFin (rcvPayload (rcvAck o g) g) g now) g now
  unfold rcvOpen
  rw [hclose, hfin, hpay]
  rfl

theorem rcvPayload_rcvAck_state (o : RcvOut) (g : Segment) :
    (rcvPayload (rcvAck o g) g).tsk.state = o.tsk.state := by
  obtain ⟨nxt, queue, hpay⟩ := rcvPayload_tsk (rcvAck o g) g
  rw [hpay]
  obtain ⟨una, wake, h | ⟨-, -, h⟩⟩ := rcvAck_cases o g
  · rw [h]
  · rw [h]
    rfl

/-- The state after a segment: that after the test for a `FIN`, or one step on. -/
theorem rcvOpen_state (o : RcvOut) (g : Segment) (now : Nat) :
    ∃ st, ((rcvOpen o g now).tsk.rcvNxt = (rcvPayload (rcvAck o g) g).tsk.rcvNxt ∧
        st = o.tsk.state ∨ st = o.tsk.state.afterFin) ∧
      ((rcvOpen o g now).tsk.state = st ∨ st = .finWait1 ∧ (rcvOpen o g now).tsk.state = .finWait2 ∨
        st = .lastAck ∧ (rcvOpen o g now).tsk.state = .close) := by
  obtain ⟨nxt, st, dl, eof, hst, hfin⟩ := rcvFin_tsk (rcvPayload (rcvAck o g) g) g now
  obtain ⟨st', dl', hst', hclose⟩ := rcvClose_tsk (rcvFin (rcvPayload (rcvAck o g) g) g now) g now
  rw [rcvPayload_rcvAck_state] at hst
  rw [hfin] at hst'
  unfold rcvOpen
  rw [hclose, hfin]
  exact ⟨st, hst, hst'⟩

theorem afterFin_closing {s : TcpState} (h : s.closing = true) : s.afterFin.closing = true := by
  cases s <;> simp_all [TcpState.closing, TcpState.afterFin]

/-- From the test for `TCP_ACK` on, the sending side is left alone or the slot is acknowledged. An
open connection stays open for sending, and a closing one stays closing. -/
theorem rcvOpen_sendSide (o : RcvOut) (g : Segment) (now : Nat) :
    ((rcvOpen o g now).tsk.sendSide = o.tsk.sendSide ∨
      g.ackFlag = true ∧ (ackCoversData o.tsk g.ack || ackCoversFin o.tsk g.ack) = true ∧
        (rcvOpen o g now).tsk.sendSide = (tcpClearTx o.tsk).sendSide) ∧
      (o.tsk.canSend = true → (rcvOpen o g now).tsk.canSend = true) ∧
      (o.tsk.state.closing = true → (rcvOpen o g now).tsk.state.closing = true) := by
  have hside : (rcvOpen o g now).tsk.sendSide = (rcvAck o g).tsk.sendSide :=
    congrArg Prod.fst (rcvOpen_sender o g now)
  obtain ⟨st2, hst2, hst3⟩ := rcvOpen_state o g now
  refine ⟨?_, ?_, ?_⟩
  · obtain ⟨una, wake, h | ⟨hack, hcover, h⟩⟩ := rcvAck_cases o g
    · exact .inl (by rw [hside, h]; rfl)
    · exact .inr ⟨hack, hcover, by rw [hside, h]; rfl⟩
  · intro hsend
    rw [TcpSock.canSend_iff] at hsend ⊢
    rcases hsend with h | h <;> rw [h] at hst2 <;> simp only [TcpState.afterFin] at hst2 <;>
      rcases hst2 with ⟨-, rfl⟩ | rfl <;> simp_all
  · intro hclosing
    have h2 : st2.closing = true := by
      rcases hst2 with ⟨-, rfl⟩ | rfl
      · exact hclosing
      · exact afterFin_closing hclosing
    rcases hst3 with h | ⟨-, h⟩ | ⟨-, h⟩ <;> rw [h]
    · exact h2
    · rfl
    · rfl

/-- What a segment can do to the sending side of a socket. -/
inductive RcvEffect (t : TcpSock) (g : Segment) (t' : TcpSock) : Prop where
  | same (hside : t'.sendSide = t.sendSide)
      (hopen : t.canSend = true → t'.canSend = true)
      (hclosing : t.state.closing = true → t'.state.closing = true)
  | acked (hack : g.ackFlag = true)
      (hcover : (ackCoversData t g.ack || ackCoversFin t g.ack) = true)
      (hside : t'.sendSide = (tcpClearTx t).sendSide)
      (hopen : t.canSend = true → t'.canSend = true)
      (hclosing : t.state.closing = true → t'.state.closing = true)
  | reset (e : Errno) (heq : t' = tcpSetError t e)
  | connected (hstate : t.state = .synSent) (hkind : t'.txKind = .none) (herr : t'.err = t.err)
      (hmss : ∃ mss, t'.mss = chooseMss mss)

theorem RcvEffect.of_rcvOpen (o : RcvOut) (g : Segment) (now : Nat) :
    RcvEffect o.tsk g (rcvOpen o g now).tsk := by
  obtain ⟨hside | ⟨hack, hcover, hside⟩, hopen, hclosing⟩ := rcvOpen_sendSide o g now
  · exact .same hside hopen hclosing
  · exact .acked hack hcover hside hopen hclosing

theorem RcvEffect.refl (t : TcpSock) (g : Segment) : RcvEffect t g t := .same rfl id id

/-- Every segment has one of the effects, on every socket. -/
theorem tcpRcvSock_effect (t : TcpSock) (g : Segment) (now : Nat) :
    RcvEffect t g (tcpRcvSock t g now).tsk := by
  unfold tcpRcvSock
  split
  · exact .refl t g
  unfold rcvSegment
  split
  · exact .reset _ rfl
  split
  · rename_i hsyn
    unfold rcvSynSent
    split
    · exact .connected hsyn rfl rfl ⟨_, rfl⟩
    · exact .refl t g
  split
  · rename_i hrecv
    split
    · exact .refl t g
    split
    · exact .refl t g
    -- the handshake is complete: the rest runs on the established socket
    replace hrecv : t.state = .synRecv := hrecv
    have hcs : t.canSend = false := by simp [TcpSock.canSend, hrecv]
    have hcl : t.state.closing = false := by simp [TcpState.closing, hrecv]
    have hrun := rcvOpen_sendSide (rcvEstablish { tsk := t } g) g now
    obtain ⟨hside | ⟨hack, hcover, hside⟩, -, -⟩ := hrun
    · exact .same hside (by simp [hcs]) (by simp [hcl])
    · exact .acked hack hcover hside (by simp [hcs]) (by simp [hcl])
  · exact .of_rcvOpen { tsk := t } g now

/-- A segment is appended to the receive queue or leaves it alone. -/
theorem rcvOpen_rcvQueue (o : RcvOut) (g : Segment) (now : Nat) (hq : o.queued = false) :
    (rcvOpen o g now).tsk.rcvQueue =
      o.tsk.rcvQueue ++ if (rcvOpen o g now).queued then [g.payload] else [] := by
  have hack : (rcvAck o g).tsk.rcvQueue = o.tsk.rcvQueue ∧ (rcvAck o g).queued = false := by
    obtain ⟨una, wake, h | ⟨-, -, h⟩⟩ := rcvAck_cases o g
    · rw [h]
      exact ⟨rfl, hq⟩
    · rw [h]
      exact ⟨rfl, hq⟩
  obtain ⟨nxt2, st2, dl2, eof, -, hfin⟩ := rcvFin_tsk (rcvPayload (rcvAck o g) g) g now
  obtain ⟨st3, dl3, -, hclose⟩ := rcvClose_tsk (rcvFin (rcvPayload (rcvAck o g) g) g now) g now
  have hcloseQueued (p : RcvOut) : (rcvClose p g now).queued = p.queued := by
    unfold rcvClose
    repeat' split
    all_goals rfl
  have hfinQueued (p : RcvOut) : (rcvFin p g now).queued = p.queued := by
    unfold rcvFin RcvOut.sendAck
    repeat' split
    all_goals rfl
  have hqueue : (rcvOpen o g now).tsk.rcvQueue = (rcvPayload (rcvAck o g) g).tsk.rcvQueue := by
    unfold rcvOpen
    rw [hclose, hfin]
  have hqueued : (rcvOpen o g now).queued = (rcvPayload (rcvAck o g) g).queued := by
    unfold rcvOpen
    rw [hcloseQueued, hfinQueued]
  rw [hqueue, hqueued, ← hack.1]
  unfold rcvPayload RcvOut.sendAck
  repeat' split
  all_goals simp_all

theorem tcpRcvSock_rcvQueue (t : TcpSock) (g : Segment) (now : Nat) :
    (tcpRcvSock t g now).tsk.rcvQueue =
      t.rcvQueue ++ if (tcpRcvSock t g now).queued then [g.payload] else [] := by
  unfold tcpRcvSock
  split
  · simp
  unfold rcvSegment
  split
  · simp [tcpSetError, tcpClearTx]
  split
  · unfold rcvSynSent
    split
    · simp [RcvOut.sendAck, tcpClearTx]
    · simp
  split
  · split
    · simp [RcvOut.sendSynAck]
    · split
      · simp
      · exact rcvOpen_rcvQueue (rcvEstablish { tsk := t } g) g now rfl
  · exact rcvOpen_rcvQueue { tsk := t } g now rfl

/-- A segment without flags `RST` and `FIN` on a connection that is established or over: only the
acknowledgment and the payload matter. -/
theorem tcpRcvSock_plain {t : TcpSock} {g : Segment} (now : Nat)
    (hstate : t.state = .established ∨ t.state = .close) (hrst : g.rstFlag = false)
    (hfin : g.finFlag = false) : tcpRcvSock t g now = rcvPayload (rcvAck { tsk := t } g) g := by
  have hpay : (rcvPayload (rcvAck { tsk := t } g) g).tsk.state = t.state :=
    rcvPayload_rcvAck_state { tsk := t } g
  rcases hstate with hstate | hstate <;> rw [hstate] at hpay <;>
    simp only [tcpRcvSock, rcvSegment, hstate, hrst, rcvOpen, rcvFin, hfin, rcvClose, hpay,
      reduceCtorEq, if_false, false_and, Bool.false_eq_true]

/-- The segments sent in answer to a segment never have flag `FIN`. -/
theorem tcpRcvSock_reply (t : TcpSock) (g : Segment) (now : Nat) :
    ∀ r ∈ (tcpRcvSock t g now).reply, r.finFlag = false := by
  have hopen (o : RcvOut) (ho : ∀ r ∈ o.reply, r.finFlag = false) :
      ∀ r ∈ (rcvOpen o g now).reply, r.finFlag = false := by
    have hack : (rcvAck o g).reply = o.reply := by
      obtain ⟨una, wake, h | ⟨-, -, h⟩⟩ := rcvAck_cases o g
      · rw [h]
      · rw [h]
    have hsend (p : RcvOut) : ∀ r ∈ p.sendAck.reply, r.finFlag = false := by
      intro r hr
      simp only [RcvOut.sendAck, Option.mem_def, Option.some.injEq] at hr
      rw [← hr]
      rfl
    have hpay : ∀ r ∈ (rcvPayload (rcvAck o g) g).reply, r.finFlag = false := by
      unfold rcvPayload
      repeat' split
      · exact hsend _
      · exact hsend _
      · rwa [hack]
      · exact hsend _
      · rwa [hack]
    have hfin : ∀ r ∈ (rcvFin (rcvPayload (rcvAck o g) g) g now).reply, r.finFlag = false := by
      unfold rcvFin
      split
      · split
        · exact hsend _
        · exact hsend _
      · exact hpay
    unfold rcvOpen rcvClose
    repeat' split
    all_goals exact hfin
  unfold tcpRcvSock rcvSegment
  split
  · simp
  split
  · simp
  split
  · unfold rcvSynSent
    split
    · simp [RcvOut.sendAck, tcpBuildSegment]
    · simp
  split
  · split
    · simp [RcvOut.sendSynAck, tcpBuildSegment]
    · split
      · simp
      · exact hopen _ (by simp [rcvEstablish])
  · exact hopen _ (by simp)

/-- A timer tick that keeps the socket sets an error, or it only counts a retransmission, and then
sends again what is in the slot. -/
theorem tcpTimerSock_kept {t t' : TcpSock} {now : Nat} {room built : Bool} {o : Option Segment}
    (h : tcpTimerSock t now room built = .kept t' o) :
    (∃ e, t.txKind ≠ .none ∧ t' = tcpSetError t e ∧ o = none) ∨
      (∃ retries deadline, t' = { t with txRetries := retries, rtoDeadlineNs := deadline }) ∧
        ∀ g ∈ o, t.txKind ≠ .none ∧ g = t.retransmit := by
  unfold tcpTimerSock at h
  split at h
  · cases h
  split at h
  · cases h
  split at h
  · cases h
    exact .inr ⟨⟨_, _, rfl⟩, by simp⟩
  rename_i hidle
  have hkind : t.txKind ≠ .none := fun hk => hidle (.inl hk)
  split at h
  · split at h
    · cases h
    · cases h
      exact .inl ⟨_, hkind, rfl, rfl⟩
  split at h
  · cases h
    exact .inr ⟨⟨_, _, rfl⟩, by simp⟩
  cases h
  refine .inr ⟨⟨_, _, rfl⟩, fun g hg => ⟨hkind, ?_⟩⟩
  cases built with
  | false => simp at hg
  | true => exact (Option.some.inj hg).symm

/-! ## How the sections of `tcp_sendmsg` end -/

theorem sendSlot_cases (t : TcpSock) (ptr : Nat) (data : List UInt8) (now : Nat) :
    (∃ e, (t.err ≠ none ∨ t.canSend = false) ∧ sendSlot t ptr data now = (.done (.error e), t)) ∨
      (t.txKind ≠ .none ∧ sendSlot t ptr data now = (.sleeping ptr data, t)) ∨
      t.err = none ∧ t.txKind = .none ∧ t.canSend = true ∧ sendSlot t ptr data now =
        (.filled ptr t.sndNxt t.rcvNxt data, tcpFillTx t ptr data now) := by
  unfold sendSlot
  split
  · rename_i herr
    exact .inl ⟨_, .inl (by simp [herr]), rfl⟩
  rename_i herr
  split
  · rename_i hkind
    exact .inr (.inl ⟨hkind, rfl⟩)
  rename_i hkind
  split
  · rename_i hsend
    exact .inr (.inr ⟨herr, not_not.1 hkind, hsend, rfl⟩)
  · rename_i hsend
    exact .inl ⟨_, .inr (Bool.eq_false_iff.2 hsend), rfl⟩

theorem sendLock_cases (t : TcpSock) (ptr : Nat) (data : List UInt8) (now : Nat) :
    (∃ e, (t.err ≠ none ∨ t.canSend = false) ∧ sendLock t ptr data now = (.done (.error e), t)) ∨
      sendLock t ptr data now = sendSlot t ptr data now := by
  unfold sendLock
  split
  · rename_i herr
    exact .inl ⟨_, .inl (by simp [herr]), rfl⟩
  split
  · exact .inr rfl
  · rename_i hsend
    exact .inl ⟨_, .inr (Bool.eq_false_iff.2 hsend), rfl⟩

/-- The copy that a call makes is the next part of its buffer. -/
theorem sendTop_cases (t : TcpSock) (buf : List UInt8) (off : Nat) (alloc : Option Nat)
    (copyOk : Bool) (hmss : 0 < t.mss) :
    (∃ e, (alloc = none ∨ copyOk = false) ∧ sendTop t buf off alloc copyOk = .done (.error e)) ∨
      buf.length ≤ off ∧ sendTop t buf off alloc copyOk = .done (.ok buf.length) ∨
      ∃ ptr data, alloc = some ptr ∧ off + data.length ≤ buf.length ∧ data.length ≤ t.mss ∧
        0 < data.length ∧ data = (buf.drop off).take data.length ∧
        sendTop t buf off alloc copyOk = .copied ptr data := by
  unfold sendTop
  split
  · have hchunk : sendChunk t buf off ≠ 0 := by
      unfold sendChunk
      omega
    rw [if_neg hchunk]
    cases alloc with
    | none => exact .inl ⟨_, .inl rfl, rfl⟩
    | some ptr =>
      cases copyOk with
      | false => exact .inl ⟨_, .inr rfl, rfl⟩
      | true =>
        have hlen : ((buf.drop off).take (sendChunk t buf off)).length = sendChunk t buf off := by
          simp only [sendChunk, List.length_take, List.length_drop]
          omega
        refine .inr (.inr ⟨ptr, _, rfl, ?_, ?_, ?_, ?_, rfl⟩)
        · rw [hlen, sendChunk]
          omega
        · rw [hlen]
          exact min_le_right _ _
        · omega
        · rw [hlen]
  · rename_i hoff
    exact .inr (.inl ⟨Nat.le_of_not_lt hoff, rfl⟩)

end BrkKernel.Net
