import BrkKernel.Net.Tcp

/-!
# Reading from a TCP socket

`tcp_recvmsg` and the arrival of segments between its calls, for any number of calls with any
buffer sizes. The bytes that have been returned, followed by the bytes in the receive queue, are
the bytes that have been queued, as long as every call has a buffer for the whole first segment of
the queue; a call with a smaller buffer drops the rest of the segment. `recvmsg_stream` says that
the stream is kept in exactly the first case.
-/

set_option autoImplicit false

namespace BrkKernel.Net

open List

variable {nonblock : Bool} {t t' : TcpSock}

/-- `tcp_recvmsg`; no result means that the call sleeps, and it runs again when it is woken. -/
def tcpRecvmsg (t : TcpSock) (len : Nat) (nonblock copyOk : Bool) :
    Option (Except Errno (List UInt8)) × TcpSock :=
  if t.state = .listen then (some (.error .enotconn), t)
  else
    match tcpRecvSection t nonblock with
    | (.ret r, t') => (some r, t')
    | (.sleep, t') => (none, t')
    | (.got payload, t') => (some (tcpRecvCopy payload len copyOk), t')

/-- The bytes that a call hands to its caller. -/
def recvBytes : Option (Except Errno (List UInt8)) → List UInt8
  | some (.ok bytes) => bytes
  | _ => []

/-- The bytes of the receive queue, in order. -/
def TcpSock.queuedBytes (t : TcpSock) : List UInt8 := t.rcvQueue.flatten

/-- The call fails before it looks at the queue, or its buffer holds the first segment. -/
def ReadFits (t : TcpSock) (len : Nat) : Prop :=
  t.state = .listen ∨ t.skErr ≠ none ∨ ∀ p ∈ t.rcvQueue.head?, p.length ≤ len

theorem tcpRecvSection_got {payload : List UInt8}
    (h : tcpRecvSection t nonblock = (.got payload, t')) :
    t.skErr = none ∧ t.rcvQueue = payload :: t'.rcvQueue ∧
      t' = { t with rcvQueue := t'.rcvQueue } := by
  unfold tcpRecvSection at h
  split at h
  · cases h
  rename_i herr
  split at h
  · repeat' split at h
    all_goals cases h
  · rename_i hq
    cases h
    exact ⟨herr, hq, rfl⟩

theorem tcpRecvSection_ret {r : Except Errno (List UInt8)}
    (h : tcpRecvSection t nonblock = (.ret r, t')) :
    t' = t ∧ recvBytes (some r) = [] ∧ (t.skErr ≠ none ∨ t.rcvQueue = []) := by
  unfold tcpRecvSection at h
  split at h
  · rename_i herr
    cases h
    exact ⟨rfl, rfl, .inl (by simp [herr])⟩
  split at h
  · rename_i hq
    repeat' split at h
    all_goals cases h
    all_goals exact ⟨rfl, rfl, .inr hq⟩
  · cases h

theorem tcpRecvSection_sleep (h : tcpRecvSection t nonblock = (.sleep, t')) :
    t' = t ∧ t.rcvQueue = [] := by
  unfold tcpRecvSection at h
  split at h
  · cases h
  split at h
  · rename_i hq
    repeat' split at h
    all_goals cases h
    exact ⟨rfl, hq⟩
  · cases h

/-- A call keeps the stream exactly when its buffer is large enough: otherwise bytes are lost. -/
theorem tcpRecvmsg_keeps_iff (t : TcpSock) (len : Nat) (nonblock : Bool) :
    recvBytes (tcpRecvmsg t len nonblock true).1 ++ (tcpRecvmsg t len nonblock true).2.queuedBytes =
      t.queuedBytes ↔ ReadFits t len := by
  unfold tcpRecvmsg
  split
  · rename_i hlisten
    simp [recvBytes, ReadFits, hlisten]
  rename_i hlisten
  split
  · rename_i r t' h
    obtain ⟨rfl, hr, hempty⟩ := tcpRecvSection_ret h
    rw [hr]
    refine iff_of_true rfl (.inr ?_)
    rcases hempty with herr | hq
    · exact .inl herr
    · exact .inr (by simp [hq])
  · rename_i t' h
    obtain ⟨rfl, hq⟩ := tcpRecvSection_sleep h
    exact iff_of_true rfl (.inr (.inr (by simp [hq])))
  rename_i payload t' h
  obtain ⟨herr, hq, -⟩ := tcpRecvSection_got h
  have htake : payload.take (min len payload.length) = payload.take len := by
    rw [← take_take, take_length]
  have hself : payload.take len = payload ↔ payload.length ≤ len := by
    refine ⟨fun h => ?_, take_of_length_le⟩
    rw [← h]
    exact length_take_le len payload
  simp only [ReadFits, hlisten, herr, hq, tcpRecvCopy, recvBytes, TcpSock.queuedBytes,
    htake, flatten_cons, append_cancel_right_eq, hself,
    head?_cons, Option.mem_some, forall_eq', reduceCtorEq, and_false, if_false,
    ne_eq, not_true_eq_false, false_or]

/-- A call changes nothing but the receive queue, from which it takes. -/
theorem tcpRecvmsg_tsk (t : TcpSock) (len : Nat) (nonblock copyOk : Bool) :
    ∃ queue, (tcpRecvmsg t len nonblock copyOk).2 = { t with rcvQueue := queue } ∧
      ∀ p ∈ queue, p ∈ t.rcvQueue := by
  unfold tcpRecvmsg
  split
  · exact ⟨t.rcvQueue, rfl, fun _ => id⟩
  split
  · rename_i r t' h
    obtain ⟨rfl, -, -⟩ := tcpRecvSection_ret h
    exact ⟨t'.rcvQueue, rfl, fun _ => id⟩
  · rename_i t' h
    obtain ⟨rfl, -⟩ := tcpRecvSection_sleep h
    exact ⟨t'.rcvQueue, rfl, fun _ => id⟩
  rename_i payload t' h
  obtain ⟨-, hq, ht⟩ := tcpRecvSection_got h
  refine ⟨t'.rcvQueue, ht, fun p hp => ?_⟩
  rw [hq]
  exact mem_cons_of_mem _ hp

/-! ## Runs -/

/-- A socket with the bytes that have been returned from it and those that have been queued. -/
structure RecvSys where
  tsk : TcpSock
  returned : List UInt8
  queued : List UInt8

/-- A socket from which nothing has been read. -/
def RecvSys.ofSock (t : TcpSock) : RecvSys := ⟨t, [], t.queuedBytes⟩

/-- What can happen on the receiving side. -/
inductive RecvOp where
  | recv (len : Nat) (nonblock : Bool)
  | segment (g : Segment) (now : Nat)

/-- One operation, with successful copies to the user. -/
def recvStep (s : RecvSys) : RecvOp → RecvSys
  | .recv len nonblock =>
    { s with tsk := (tcpRecvmsg s.tsk len nonblock true).2
             returned := s.returned ++ recvBytes (tcpRecvmsg s.tsk len nonblock true).1 }
  | .segment g now =>
    { s with tsk := (tcpRcvSock s.tsk g now).tsk
             queued := s.queued ++ if (tcpRcvSock s.tsk g now).queued then g.payload else [] }

/-- The state after a sequence of operations. -/
def recvRun (s : RecvSys) (ops : List RecvOp) : RecvSys := ops.foldl recvStep s

/-- The condition on one operation. -/
def RecvOp.Fits (s : RecvSys) : RecvOp → Prop
  | .recv len _ => ReadFits s.tsk len
  | .segment _ _ => True

/-- Every operation of the sequence meets the condition when its turn comes. -/
def OpsFit (s : RecvSys) : List RecvOp → Prop
  | [] => True
  | op :: ops => op.Fits s ∧ OpsFit (recvStep s op) ops

/-- No byte has been dropped or reordered so far. -/
def RecvSys.Kept (s : RecvSys) : Prop := s.returned ++ s.tsk.queuedBytes = s.queued

theorem recvStep_segment_queuedBytes (s : RecvSys) (g : Segment) (now : Nat) :
    (recvStep s (.segment g now)).tsk.queuedBytes =
      s.tsk.queuedBytes ++ if (tcpRcvSock s.tsk g now).queued then g.payload else [] := by
  simp only [recvStep, TcpSock.queuedBytes]
  rw [tcpRcvSock_rcvQueue]
  split
  · simp
  · simp

theorem RecvSys.Kept.step_iff {s : RecvSys} (hs : s.Kept) (op : RecvOp) :
    (recvStep s op).Kept ↔ op.Fits s := by
  cases op with
  | recv len nonblock =>
    rw [RecvOp.Fits, ← tcpRecvmsg_keeps_iff s.tsk len nonblock, RecvSys.Kept, recvStep, ← hs,
      append_assoc, append_cancel_left_eq]
  | segment g now =>
    refine iff_of_true ?_ trivial
    rw [RecvSys.Kept, recvStep_segment_queuedBytes, ← append_assoc]
    show _ = s.queued ++ _
    rw [← hs]
    rfl

/-- The stream is kept up to every point of a run exactly when every operation meets the
condition. -/
theorem RecvSys.Kept.run_iff (ops : List RecvOp) :
    ∀ s : RecvSys, s.Kept → ((∀ k, (recvRun s (ops.take k)).Kept) ↔ OpsFit s ops) := by
  induction ops with
  | nil =>
    intro s hs
    exact iff_of_true (fun k => by simpa [recvRun] using hs) trivial
  | cons op ops ih =>
    intro s hs
    constructor
    · intro h
      have hstep : (recvStep s op).Kept := h 1
      refine ⟨(hs.step_iff op).1 hstep, (ih _ hstep).1 fun k => ?_⟩
      exact h (k + 1)
    · rintro ⟨hfit, hrest⟩ k
      have hstep := (hs.step_iff op).2 hfit
      cases k with
      | zero => exact hs
      | succ k => exact (ih _ hstep).2 hrest k

/-- What reading does to the stream. For every socket and every sequence of reads and arriving
segments, no byte is dropped up to any point exactly when each read has room for the first segment
of the queue, and the bytes returned are then a beginning of the bytes queued. -/
theorem recvmsg_stream (t : TcpSock) (ops : List RecvOp) :
    ((∀ k, (recvRun (.ofSock t) (ops.take k)).Kept) ↔ OpsFit (.ofSock t) ops) ∧
      (OpsFit (.ofSock t) ops →
        (recvRun (.ofSock t) ops).returned <+: (recvRun (.ofSock t) ops).queued) := by
  have hinit : (RecvSys.ofSock t).Kept := rfl
  refine ⟨RecvSys.Kept.run_iff ops _ hinit, fun hfit => ?_⟩
  have hkept := (RecvSys.Kept.run_iff ops _ hinit).2 hfit ops.length
  rw [take_length] at hkept
  exact ⟨_, hkept⟩

/-- An established connection with a queue of segments and nothing to send. -/
def TcpSock.withQueue (queue : List (List UInt8)) : TcpSock where
  state := .established
  iss := 0
  irs := 0
  sndUna := 1
  sndNxt := 1
  sndWnd := 4096
  rcvNxt := 1
  rcvWnd := 4096
  mss := tcpMss
  txKind := .none
  txPtr := none
  txData := []
  txLen := 0
  txSeq := 0
  txRetries := 0
  rtoDeadlineNs := 0
  orphan := false
  createdNs := 0
  timeWaitDeadlineNs := 0
  finWait2DeadlineNs := 0
  err := none
  hasListener := false
  onAcceptQueue := false
  connected := true
  rcvQueue := queue
  skErr := none
  eof := false
  shutdown := false

/-- Two reads of two bytes return two segments of two bytes. -/
theorem recvmsg_stream_two_reads :
    (recvRun (.ofSock (.withQueue [[1, 2], [3, 4]])) [.recv 2 false, .recv 2 false]).returned <+:
      [1, 2, 3, 4] :=
  (recvmsg_stream (.withQueue [[1, 2], [3, 4]]) [.recv 2 false, .recv 2 false]).2 (by
    refine ⟨.inr (.inr ?_), .inr (.inr ?_), trivial⟩
    · simp [RecvSys.ofSock, TcpSock.withQueue]
    · simp [RecvSys.ofSock, TcpSock.withQueue, recvStep, tcpRecvmsg, tcpRecvSection])

/-- Two reads of one byte from a queue of a segment of two bytes and a segment of one byte return
the first and the third byte. -/
theorem recvmsg_drops_rest :
    (recvRun (.ofSock (.withQueue [[1, 2], [3]])) [.recv 1 false, .recv 1 false]).returned =
        [1, 3] ∧ ¬ [1, 3] <+: (TcpSock.withQueue [[1, 2], [3]]).queuedBytes := by
  decide

end BrkKernel.Net
