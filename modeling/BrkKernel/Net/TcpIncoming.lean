import BrkKernel.Lib.Actors
import BrkKernel.Net.TcpRecv

/-!
# What incoming segments can do to a socket

`tcp_rcv` compares the acknowledgment number of a segment with `snd_nxt` before it moves `snd_una`,
but not before it clears the transmit slot. `ack_checked_iff` says for which sockets and segments
the number is checked against what was sent; `ack_beyond_sent` is one for which it is not.

Data and `FIN` are taken wherever their number is `rcv_nxt`, in every state. So nothing is received
after the end of the stream as long as no segment has that number then (`nothing_after_end`), and a
segment that has it is queued behind the end (`data_after_fin`).
-/

set_option autoImplicit false

namespace BrkKernel.Net

open Lib

variable {t t' t'' : TcpSock} {g : Segment} {now : Nat} {ack a b : Nat} {st : TcpState}

/-! ## Acknowledgments -/

/-- The states from `TCP_ESTABLISHED` on. -/
def TcpState.isOpen : TcpState → Bool
  | .close | .listen | .synSent | .synRecv => false
  | _ => true

/-- The number lies in `(snd_una, snd_nxt]`. -/
def TcpSock.Acks (t : TcpSock) (ack : Nat) : Prop :=
  tcpSeqAfter ack t.sndUna = true ∧ tcpSeqGeq t.sndNxt ack = true

/-- The number covers the data or the `FIN` in the transmit slot. -/
def TcpSock.Covered (t : TcpSock) (ack : Nat) : Prop :=
  (ackCoversData t ack || ackCoversFin t ack) = true

/-- The acknowledgment of the segment has been checked against what was sent. -/
structure AckChecked (t : TcpSock) (g : Segment) (t' : TcpSock) : Prop where
  una : tcpSeqGeq t'.sndNxt t'.sndUna = true
  cleared : t.txKind = .data ∨ t.txKind = .fin → t'.txKind = .none →
    g.ackFlag = true ∧ t.Acks g.ack ∧ t.Covered g.ack
  unsent : g.ackFlag = true → tcpSeqAfter g.ack t.sndNxt = true → t'.sender = t.sender

theorem AckChecked.congr (h : t'.sender = t''.sender) : AckChecked t g t' ↔ AckChecked t g t'' := by
  have hfields := h
  simp only [TcpSock.sender, TcpSock.sendSide, Prod.mk.injEq, SendSide.mk.injEq] at hfields
  obtain ⟨⟨hkind, -, -, -, -, -, -, hnxt⟩, huna, -⟩ := hfields
  constructor <;>
  · rintro ⟨h1, h2, h3⟩
    exact ⟨hnxt ▸ huna ▸ h1, hkind ▸ h2, h ▸ h3⟩

theorem kind_of_covered (h : t.Covered ack) : t.txKind = .data ∨ t.txKind = .fin := by
  simp only [TcpSock.Covered, ackCoversData, ackCoversFin, Bool.or_eq_true, Bool.and_eq_true,
    beq_iff_eq] at h
  exact h.imp And.left And.left

theorem tcpSeqGeq_iff :
    tcpSeqGeq a b = true ↔ (a + (4294967296 - b % 4294967296)) % 4294967296 < 2147483648 :=
  decide_eq_true_iff

theorem tcpSeqAfter_iff : tcpSeqAfter a b = true ↔
    0 < (a + (4294967296 - b % 4294967296)) % 4294967296 ∧ tcpSeqGeq a b = true := by
  rw [tcpSeqAfter, Bool.and_eq_true, decide_eq_true_iff]
  rfl

theorem not_after_of_acks (h : t.Acks ack) : ¬ tcpSeqAfter ack t.sndNxt = true := by
  have hle := h.2
  rw [tcpSeqAfter_iff]
  rw [tcpSeqGeq_iff] at hle ⊢
  omega

/-- The order of `snd_una` and `snd_nxt` after an acknowledgment. -/
theorem ackUna_ordered_iff (t : TcpSock) (ack : Nat) :
    tcpSeqGeq (ackUna t ack).sndNxt (ackUna t ack).sndUna = true ↔
      tcpSeqGeq t.sndNxt t.sndUna = true ∨ t.Acks ack := by
  unfold ackUna TcpSock.Acks
  split <;>
  · rename_i h
    simp only [Bool.and_eq_true, Bool.not_eq_true', ← Bool.not_eq_true, tcpSeqAfter_iff,
      tcpSeqGeq_iff] at h ⊢
    omega

theorem ackUna_of_after (h : tcpSeqAfter ack t.sndNxt = true) : ackUna t ack = t := by
  simp [ackUna, h]

theorem rcvAck_checked_iff (t : TcpSock) (g : Segment) :
    AckChecked t g (rcvAck { tsk := t } g).tsk ↔
      (tcpSeqGeq t.sndNxt t.sndUna = true ∨ g.ackFlag = true ∧ t.Acks g.ack) ∧
        (g.ackFlag = true → t.Covered g.ack → t.Acks g.ack) := by
  by_cases hflag : g.ackFlag = true
  · by_cases hcover : t.Covered g.ack
    · -- the slot is cleared
      have hrcv : (rcvAck { tsk := t } g).tsk = tcpClearTx (ackUna t g.ack) := by
        unfold TcpSock.Covered at hcover
        simp [rcvAck, hflag, hcover]
      rw [hrcv]
      constructor
      · rintro ⟨huna, hclear, -⟩
        have hacks := (hclear (kind_of_covered hcover) rfl).2.1
        exact ⟨.inr ⟨hflag, hacks⟩, fun _ _ => hacks⟩
      · rintro ⟨-, hacks⟩
        replace hacks := hacks hflag hcover
        refine ⟨(ackUna_ordered_iff t g.ack).2 (.inr hacks), fun _ _ => ⟨hflag, hacks, hcover⟩, ?_⟩
        exact fun _ hafter => absurd hafter (not_after_of_acks hacks)
    · have hrcv : (rcvAck { tsk := t } g).tsk = ackUna t g.ack := by
        unfold TcpSock.Covered at hcover
        simp [rcvAck, hflag, hcover]
      obtain ⟨una, huna⟩ := ackUna_eq t g.ack
      have hkind : (ackUna t g.ack).txKind = t.txKind := by rw [huna]
      rw [hrcv]
      constructor
      · rintro ⟨hord, -, -⟩
        refine ⟨((ackUna_ordered_iff t g.ack).1 hord).imp id fun h => ⟨hflag, h⟩, ?_⟩
        exact fun _ h => absurd h hcover
      · rintro ⟨hord, -⟩
        refine ⟨(ackUna_ordered_iff t g.ack).2 (hord.imp id And.right), fun hk hnone => ?_, ?_⟩
        · rw [hkind] at hnone
          rw [hnone] at hk
          rcases hk with hk | hk <;> cases hk
        · intro _ hafter
          rw [ackUna_of_after hafter]
  · have hrcv : (rcvAck { tsk := t } g).tsk = t := by simp [rcvAck, hflag]
    rw [hrcv]
    constructor
    · rintro ⟨hord, -, -⟩
      exact ⟨.inl hord, fun h => absurd h hflag⟩
    · rintro ⟨hord | hord, -⟩
      · refine ⟨hord, fun hk hnone => ?_, fun h => absurd h hflag⟩
        rw [hnone] at hk
        rcases hk with hk | hk <;> cases hk
      · exact absurd hord.1 hflag

/-- A segment for a socket that is neither listening nor in a handshake. -/
theorem tcpRcvSock_eq (now : Nat)
    (hstate : t.state ≠ .listen ∧ t.state ≠ .synSent ∧ t.state ≠ .synRecv) :
    tcpRcvSock t g now =
      if g.rstFlag then { tsk := tcpSetError t .econnreset, wakeChild := true }
      else rcvOpen { tsk := t } g now := by
  simp [tcpRcvSock, rcvSegment, hstate]

/-- The acknowledgment number of a segment is checked against what was sent exactly if `snd_una` and
`snd_nxt` are in order or brought into order by it, and the number does not cover the transmit slot
unless it is one of what was sent and not acknowledged. -/
theorem ack_checked_iff (t : TcpSock) (g : Segment) (now : Nat) (hstate : t.state.isOpen = true)
    (hrst : g.rstFlag = false) :
    AckChecked t g (tcpRcvSock t g now).tsk ↔
      (tcpSeqGeq t.sndNxt t.sndUna = true ∨ g.ackFlag = true ∧ t.Acks g.ack) ∧
        (g.ackFlag = true → t.Covered g.ack → t.Acks g.ack) := by
  have hrcv : tcpRcvSock t g now = rcvOpen { tsk := t } g now := by
    rw [tcpRcvSock_eq now (by cases hs : t.state <;> simp_all [TcpState.isOpen]), hrst]
    rfl
  rw [hrcv, AckChecked.congr (rcvOpen_sender _ g now)]
  exact rcvAck_checked_iff t g

/-- Ten bytes from number 100 on are in the transmit slot. -/
def tenBytes : TcpSock :=
  { TcpSock.withQueue [] with sndUna := 100, sndNxt := 110, txKind := .data, txPtr := some 1
                              txData := List.replicate 10 7, txLen := 10, txSeq := 100 }

/-- A segment that only acknowledges. -/
def bareAck (ack : Nat) : Segment := tcpBuildSegment tenBytes 1 ack false true false [] false

theorem ack_checked_all_sent : tenBytes.state.isOpen = true ∧ (bareAck 110).rstFlag = false ∧
    AckChecked tenBytes (bareAck 110) (tcpRcvSock tenBytes (bareAck 110) 0).tsk := by
  refine ⟨rfl, rfl, (ack_checked_iff tenBytes (bareAck 110) 0 rfl rfl).2 ⟨.inl (by decide), ?_⟩⟩
  exact fun _ _ => ⟨by decide, by decide⟩

/-- The number 200 was never sent, and clears the slot. -/
theorem ack_beyond_sent : tenBytes.state.isOpen = true ∧ (bareAck 200).rstFlag = false ∧
    tcpSeqAfter (bareAck 200).ack tenBytes.sndNxt = true ∧
    (tcpRcvSock tenBytes (bareAck 200) 0).tsk.txKind = .none ∧
    ¬ AckChecked tenBytes (bareAck 200) (tcpRcvSock tenBytes (bareAck 200) 0).tsk := by
  refine ⟨rfl, rfl, by decide, by decide, fun h => ?_⟩
  have hacks := (h.cleared (.inl rfl) (by decide)).2.1
  exact absurd hacks.2 (by decide)

/-! ## After the end of the stream -/

/-- The states of a connection whose peer has sent its `FIN`, or that is over. -/
def TcpState.ended : TcpState → Bool
  | .close | .closeWait | .lastAck | .timeWait => true
  | _ => false

/-- `rcv_nxt` advances over the `FIN` of the segment: without the flag it would be another. -/
def consumesFin (t : TcpSock) (g : Segment) (now : Nat) : Bool :=
  (tcpRcvSock t g now).tsk.rcvNxt != (tcpRcvSock t { g with finFlag := false } now).tsk.rcvNxt

/-- A socket, and whether a `FIN` has been consumed. -/
structure Incoming where
  tsk : TcpSock
  fin : Bool

def Incoming.rcv (s : Incoming) (g : Segment) (now : Nat) : Incoming :=
  ⟨(tcpRcvSock s.tsk g now).tsk, s.fin || consumesFin s.tsk g now⟩

/-- The end of the stream has been received, or the connection is over. -/
def Incoming.Over (s : Incoming) : Prop := s.fin = true ∨ s.tsk.state = .close

/-- Neither the data nor the `FIN` of the segment has the number. -/
def Segment.Misses (g : Segment) (nxt : Nat) : Prop :=
  (g.payload ≠ [] → g.seq ≠ nxt) ∧ (g.finFlag = true → u32 (g.seq + g.payload.length) ≠ nxt)

/-- A segment arrives. -/
def Receives (s s' : Incoming) : Prop := ∃ g now, s' = s.rcv g now

/-- A segment arrives, and behind the end of the stream it has not the number `rcv_nxt`. -/
def ReceivesInOrder (s s' : Incoming) : Prop :=
  ∃ g now, s' = s.rcv g now ∧ (s.tsk.state.ended = true → g.Misses s.tsk.rcvNxt)

section End

variable {o : RcvOut} {s s' : Incoming}

theorem ended_afterFin
    (h : st ≠ .listen ∧ st ≠ .synSent ∧ st ≠ .synRecv) : st.afterFin.ended = true := by
  cases st <;> simp_all [TcpState.ended, TcpState.afterFin]

theorem ne_of_ended (h : st.ended = true) : st ≠ .listen ∧ st ≠ .synSent ∧ st ≠ .synRecv := by
  cases st <;> simp_all [TcpState.ended]

/-- A connection that is not being made ends with a `FIN` that is consumed, and stays ended. -/
theorem rcvOpen_ended (now : Nat)
    (hstate : o.tsk.state ≠ .listen ∧ o.tsk.state ≠ .synSent ∧ o.tsk.state ≠ .synRecv)
    (h : o.tsk.state.ended = true ∨
      (rcvOpen o g now).tsk.rcvNxt ≠ (rcvOpen o { g with finFlag := false } now).tsk.rcvNxt) :
    (rcvOpen o g now).tsk.state.ended = true := by
  have hplain : (rcvOpen o { g with finFlag := false } now).tsk.rcvNxt =
      (rcvPayload (rcvAck o g) g).tsk.rcvNxt := by
    obtain ⟨_, _, -, hclose⟩ :=
      rcvClose_tsk (rcvPayload (rcvAck o g) g) { g with finFlag := false } now
    have hnxt := congrArg TcpSock.rcvNxt hclose
    exact hnxt
  obtain ⟨st, hst, hst'⟩ := rcvOpen_state o g now
  have hended : st.ended = true := by
    rcases hst with ⟨hnxt, rfl⟩ | rfl
    · exact h.resolve_right fun hne => hne (hnxt.trans hplain.symm)
    · exact ended_afterFin hstate
  rcases hst' with h | ⟨rfl, -⟩ | ⟨-, h⟩
  · rwa [h]
  · cases hended
  · rw [h]
    rfl

/-- A segment that misses `rcv_nxt` neither queues nor advances anything. -/
theorem rcvOpen_misses (now : Nat) (h : g.Misses o.tsk.rcvNxt) :
    (rcvOpen o g now).tsk.rcvQueue = o.tsk.rcvQueue ∧
      (rcvOpen o g now).tsk.rcvNxt = o.tsk.rcvNxt := by
  have hack : (rcvAck o g).tsk.rcvQueue = o.tsk.rcvQueue ∧
      (rcvAck o g).tsk.rcvNxt = o.tsk.rcvNxt := by
    obtain ⟨una, wake, h | ⟨-, -, h⟩⟩ := rcvAck_cases o g <;> rw [h] <;> exact ⟨rfl, rfl⟩
  have hpay : (rcvPayload (rcvAck o g) g).tsk = (rcvAck o g).tsk := by
    by_cases hnil : g.payload = []
    · simp [rcvPayload, hnil]
    · have hseq : g.seq ≠ (rcvAck o g).tsk.rcvNxt := hack.2 ▸ h.1 hnil
      simp [rcvPayload, hnil, hseq, RcvOut.sendAck]
  have hfin : (rcvFin (rcvPayload (rcvAck o g) g) g now).tsk = (rcvAck o g).tsk := by
    by_cases hflag : g.finFlag = true
    · have hseq : u32 (g.seq + g.payload.length) ≠ (rcvAck o g).tsk.rcvNxt := hack.2 ▸ h.2 hflag
      simp [rcvFin, hflag, hpay, hseq, RcvOut.sendAck]
    · simp [rcvFin, hflag, hpay]
  obtain ⟨_, _, -, hclose⟩ := rcvClose_tsk (rcvFin (rcvPayload (rcvAck o g) g) g now) g now
  unfold rcvOpen
  rw [hclose, hfin]
  exact hack

theorem ended_of_consumesFin (h : consumesFin t g now = true) :
    (tcpRcvSock t g now).tsk.state.ended = true := by
  rw [consumesFin, bne_iff_ne] at h
  by_cases hstate : t.state ≠ .listen ∧ t.state ≠ .synSent ∧ t.state ≠ .synRecv
  · rw [tcpRcvSock_eq now hstate] at h ⊢
    rw [tcpRcvSock_eq now hstate] at h
    split at h
    next => exact absurd rfl h
    next hrst =>
      rw [if_neg hrst]
      exact rcvOpen_ended now hstate (.inr h)
  unfold tcpRcvSock rcvSegment at h ⊢
  by_cases hrst : g.rstFlag = true
  · simp [hrst] at h
  rcases (by tauto : t.state = .listen ∨ t.state = .synSent ∨ t.state = .synRecv) with hs | hs | hs
  · simp [hs] at h
  · simp [hrst, hs, rcvSynSent] at h
  -- the handshake is complete, or nothing happens
  simp only [hrst, hs, Bool.false_eq_true, if_false, reduceCtorEq, if_true] at h ⊢
  split at h
  · exact absurd rfl h
  split at h
  · exact absurd rfl h
  rw [if_neg ‹_›, if_neg ‹_›]
  exact rcvOpen_ended now ⟨nofun, nofun, nofun⟩ (.inr h)

/-- A segment on an ended connection. -/
theorem ended_rcv (now : Nat) (hstate : t.state.ended = true) :
    (tcpRcvSock t g now).tsk.state.ended = true ∧ (g.Misses t.rcvNxt →
      (tcpRcvSock t g now).tsk.rcvQueue = t.rcvQueue ∧
        (tcpRcvSock t g now).tsk.rcvNxt = t.rcvNxt) := by
  rw [tcpRcvSock_eq now (ne_of_ended hstate)]
  split
  · exact ⟨rfl, fun _ => ⟨rfl, rfl⟩⟩
  · exact ⟨rcvOpen_ended now (ne_of_ended hstate) (.inl hstate), fun h => rcvOpen_misses now h⟩

theorem ended_of_over (hrun : Run ReceivesInOrder ⟨t, false⟩ s) (hover : s.Over) :
    s.tsk.state.ended = true := by
  have hinv : s.fin = true → s.tsk.state.ended = true := by
    refine Run.invariant (P := fun s => s.fin = true → s.tsk.state.ended = true) ?_ hrun nofun
    rintro x y ⟨g, now, rfl, -⟩ ih hfin
    rcases Bool.or_eq_true_iff.1 hfin with hfin | hfin
    · exact (ended_rcv now (ih hfin)).1
    · exact ended_of_consumesFin hfin
  rcases hover with hfin | hclose
  · exact hinv hfin
  · rw [hclose]
    rfl

end End

/-- Once a `FIN` has been consumed or the connection is over, no segment adds to the receive queue
or advances `rcv_nxt`, in every run in which no segment that comes then has data or a `FIN` at
`rcv_nxt`. -/
theorem nothing_after_end (t : TcpSock) (s s' : Incoming)
    (hrun : Run ReceivesInOrder ⟨t, false⟩ s) (hover : s.Over) (hrest : Run ReceivesInOrder s s') :
    s'.tsk.rcvQueue = s.tsk.rcvQueue ∧ s'.tsk.rcvNxt = s.tsk.rcvNxt := by
  have hkeep : s'.tsk.state.ended = true ∧ s'.tsk.rcvQueue = s.tsk.rcvQueue ∧
      s'.tsk.rcvNxt = s.tsk.rcvNxt := by
    refine Run.invariant (P := fun x : Incoming => x.tsk.state.ended = true ∧
      x.tsk.rcvQueue = s.tsk.rcvQueue ∧ x.tsk.rcvNxt = s.tsk.rcvNxt) ?_ hrest
      ⟨ended_of_over hrun hover, rfl, rfl⟩
    rintro x y ⟨g, now, rfl, hmiss⟩ ⟨hended, hqueue, hnxt⟩
    obtain ⟨hended', hsame⟩ := ended_rcv (g := g) now hended
    obtain ⟨hqueue', hnxt'⟩ := hsame (hmiss hended)
    exact ⟨hended', hqueue'.trans hqueue, hnxt'.trans hnxt⟩
  exact hkeep.2

/-- A segment that carries data or a `FIN`, or both. -/
def inSegment (seq : Nat) (data : List UInt8) (fin : Bool) : Segment :=
  tcpBuildSegment (.withQueue []) seq 1 false true fin data false

/-- The byte 5 and the `FIN` arrive. -/
def finReceived : Incoming := Incoming.rcv ⟨.withQueue [], false⟩ (inSegment 1 [5] true) 0

/-- The byte arrives once more. -/
theorem nothing_after_end_duplicate : finReceived.Over ∧ finReceived.tsk.rcvQueue = [[5]] ∧
    (finReceived.rcv (inSegment 1 [5] false) 0).tsk.rcvQueue = finReceived.tsk.rcvQueue ∧
    (finReceived.rcv (inSegment 1 [5] false) 0).tsk.rcvNxt = finReceived.tsk.rcvNxt := by
  have hover : finReceived.Over := .inl (by decide)
  refine ⟨hover, by decide, nothing_after_end (.withQueue []) _ _
    (.single ⟨inSegment 1 [5] true, 0, rfl, nofun⟩) hover (.single ⟨_, _, rfl, fun _ => ?_⟩)⟩
  exact ⟨fun _ => by decide, nofun⟩

/-- After the `FIN` with number 1 a byte with number 2 is queued. -/
theorem data_after_fin : ∃ s s' : Incoming, Run Receives ⟨.withQueue [], false⟩ s ∧ s.Over ∧
    Receives s s' ∧ s.tsk.rcvQueue = [] ∧ s'.tsk.rcvQueue = [[5]] := by
  refine ⟨_, _, .single ⟨inSegment 1 [] true, 0, rfl⟩, .inl (by decide),
    ⟨inSegment 2 [5] false, 0, rfl⟩, by decide, by decide⟩

end BrkKernel.Net
