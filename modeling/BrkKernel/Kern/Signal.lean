import BrkKernel.Kern.Base
import Mathlib.Data.BitVec

/-!
# Signals

`kern/signal.c` for one task: how a signal is chosen, how its handler is entered and left, and the
calls that change the actions and the blocked set. A signal set is a 64-bit word.

User memory is a word at each address that is a multiple of eight. The frame of a signal is
aligned to sixteen bytes, so the kernel writes and reads it by whole words; addresses wrap at `2 ^
64`, as the pointer arithmetic of the source does. What `sigaction` and `sigprocmask` store
through the pointers that they are given is recorded as the ranges they store to (`Store`).

`getNextSignal_eq_iff` says which signal is chosen, `deliverOne_cases` what becomes of it, and
`deliverPending_spec` that the delivery loop ends with nothing left to deliver.
-/

set_option autoImplicit false

namespace BrkKernel.Signal

open Function List

/-- `NSIG`. -/
def nsig : Nat := 32

/-- `SIGKILL`. -/
def sigkill : Nat := 9

/-- `SIGSTOP`. -/
def sigstop : Nat := 19

/-- `SIG_DFL`. -/
def sigDfl : BitVec 64 := 0

/-- `SIG_IGN`. -/
def sigIgn : BitVec 64 := 1

/-- `SA_NODEFER`. -/
def saNodefer : BitVec 64 := 0x40000000

/-- `USER_SPACE_SIZE_MAX`. -/
def userSpaceSizeMax : Nat := 2 ^ 38 - pageSize

/-- `sizeof(struct user_sigframe)`. -/
def sigframeSize : Nat := 320

/-- `struct trap_frame`: the 32 registers, then `sstatus`, `sepc`, `scause`, `stval`, `kernel_tp`
and the padding. -/
abbrev TrapFrame : Type := Fin 38 → BitVec 64

def TrapFrame.sp (f : TrapFrame) : BitVec 64 := f 2

def TrapFrame.a0 (f : TrapFrame) : BitVec 64 := f 10

/-- `trap_frame_get_syscall_no`. -/
def TrapFrame.a7 (f : TrapFrame) : BitVec 64 := f 17

def TrapFrame.pc (f : TrapFrame) : BitVec 64 := f 33

/-- `trap_frame_get_arg`. -/
def TrapFrame.arg (f : TrapFrame) (i : Fin 6) : BitVec 64 := f ⟨10 + i.val, by omega⟩

def TrapFrame.setSp (f : TrapFrame) (v : BitVec 64) : TrapFrame := update f 2 v

/-- `trap_frame_set_ret_val`. -/
def TrapFrame.setA0 (f : TrapFrame) (v : BitVec 64) : TrapFrame := update f 10 v

def TrapFrame.setPc (f : TrapFrame) (v : BitVec 64) : TrapFrame := update f 33 v

def TrapFrame.setSstatus (f : TrapFrame) (v : BitVec 64) : TrapFrame := update f 32 v

/-- `struct sigaction`. -/
structure SigAction where
  handler : BitVec 64
  mask : BitVec 64
  flags : BitVec 64
deriving DecidableEq

/-- The word at each aligned address. -/
abbrev UserMem : Type := BitVec 64 → BitVec 64

/-- The fields of `struct task` that signals use, with the memory of the task and the signal that
has ended it. -/
structure SigTask where
  frame : TrapFrame
  pending : BitVec 64
  blocked : BitVec 64
  inHandler : Bool
  sigframeSp : BitVec 64
  actions : Nat → SigAction
  mem : UserMem
  exited : Option Nat

open SigTask

/-- A range of addresses that the kernel stores to. -/
structure Store where
  addr : BitVec 64
  len : Nat
deriving DecidableEq

/-- `1ULL << sig`. -/
def sigBit (sig : Nat) : BitVec 64 := BitVec.twoPow 64 sig

/-- The signals from `1` to `NSIG - 1`, in the order in which the loops go through them. -/
def signals : List Nat := List.range' 1 31

/-- `sig_default_terminate`: not for `SIGCHLD`, `SIGURG`, `SIGWINCH` and `SIGCONT`. -/
def sigDefaultTerminate (sig : Nat) : Bool := sig != 17 && sig != 23 && sig != 28 && sig != 18

/-- `user_access_ok`. The sum wraps. -/
def userAccessOk (addr : BitVec 64) (len : Nat) : Bool :=
  decide ((addr + BitVec.ofNat 64 len).toNat ≤ userSpaceSizeMax)

section Model

variable (t : SigTask)

def SigTask.nodefer (sig : Nat) : Bool := (t.actions sig).flags &&& saNodefer != 0

/-- The pending signals whose action has `SA_NODEFER`. -/
def SigTask.nodferMask : BitVec 64 :=
  signals.foldl
    (fun m sig => if t.pending.getLsbD sig && t.nodefer sig then m ||| sigBit sig else m) 0

/-- The set that `get_next_signal_locked` chooses from. -/
def SigTask.deliverMask : BitVec 64 :=
  if t.inHandler then
    (t.pending &&& ~~~t.blocked &&& sigBit sigkill) ||| (t.nodferMask &&& ~~~t.blocked)
  else t.pending &&& ~~~t.blocked

/-- `get_next_signal_locked`. -/
def SigTask.getNextSignal : Nat := (signals.find? fun sig => t.deliverMask.getLsbD sig).getD 0

/-- `clear_pending_locked`. -/
def SigTask.clearPending (sig : Nat) : SigTask :=
  { t with pending := t.pending &&& ~~~sigBit sig }

/-- Where `setup_signal_frame_locked` puts the frame. -/
def SigTask.frameAddr : BitVec 64 :=
  (t.frame.sp - BitVec.ofNat 64 sigframeSize) &&& ~~~(0xF : BitVec 64)

/-- The words of `struct user_sigframe`. The upper half of the last one is padding, which keeps what
is in memory. -/
def SigTask.sigframeWord (sig i : Nat) : BitVec 64 :=
  if h : i < 38 then t.frame ⟨i, h⟩
  else if i = 38 then t.blocked
  else (t.mem (t.frameAddr + 312) &&& 0xffffffff00000000) ||| BitVec.ofNat 64 sig

/-- Memory with the frame in it. -/
def SigTask.frameMem (sig : Nat) : UserMem := fun a =>
  let k := (a - t.frameAddr).toNat
  if k < sigframeSize ∧ k % 8 = 0 then t.sigframeWord sig (k / 8) else t.mem a

/-- The task after `setup_signal_frame_locked`. -/
def SigTask.withFrame (sig : Nat) : SigTask :=
  { t.clearPending sig with
    mem := t.frameMem sig
    sigframeSp := t.frameAddr
    blocked := (if t.nodefer sig then t.blocked else t.blocked ||| sigBit sig) |||
      (t.actions sig).mask
    inHandler := true
    frame := ((t.frame.setSp t.frameAddr).setPc (t.actions sig).handler).setA0
      (BitVec.ofNat 64 sig) }

/-- `setup_signal_frame_locked`. -/
def SigTask.setupSignalFrame (sig : Nat) : Option SigTask :=
  if userAccessOk t.frameAddr sigframeSize then some (t.withFrame sig) else none

/-- What `setup_signal_frame_locked` stores: the trap frame, the blocked set and the number. -/
def SigTask.setupStores : List Store :=
  if userAccessOk t.frameAddr sigframeSize then
    [⟨t.frameAddr, 304⟩, ⟨t.frameAddr + 304, 8⟩, ⟨t.frameAddr + 312, 4⟩]
  else []

/-- `task_exit_signal`. -/
def SigTask.exitSignal (sig : Nat) : SigTask := { t with exited := some sig }

/-- `signal_deliver_one`. -/
def SigTask.deliverOne (sig : Nat) : SigTask :=
  if sig = sigkill ∨ ((t.actions sig).handler = sigDfl ∧ sigDefaultTerminate sig = true) then
    t.exitSignal sig
  else if (t.actions sig).handler = sigIgn then t.clearPending sig
  else if (t.actions sig).handler = sigDfl then t.clearPending sig
  else (t.setupSignalFrame sig).getD (t.exitSignal sig)

/-- The loop of `signal_deliver_pending`. -/
def deliverLoop : Nat → SigTask → SigTask
  | 0, t => t
  | fuel + 1, t =>
    if t.getNextSignal = 0 then t
    else
      let t' := t.deliverOne t.getNextSignal
      if t'.exited.isSome || t'.inHandler then t' else deliverLoop fuel t'

/-- `signal_deliver_pending`. A turn that does not leave the loop takes one of the pending signals
away. -/
def SigTask.deliverPending : SigTask := deliverLoop nsig t

/-- `signal_do_sigreturn`. -/
def SigTask.sigreturn : Except Errno SigTask :=
  if t.sigframeSp = 0 then .error .einval
  else if !userAccessOk t.sigframeSp sigframeSize then .error .efault
  else
    .ok { t with
      frame := fun i => t.mem (t.sigframeSp + BitVec.ofNat 64 (8 * i.val))
      blocked := t.mem (t.sigframeSp + 304)
      inHandler := false
      sigframeSp := 0 }

/-- `sig_valid`. -/
def sigValid (sig : Int) : Bool := decide (0 < sig ∧ sig < nsig)

/-- `signal_do_sigaction`, with what it stores through `oact`. -/
def SigTask.sigaction (sig : Int) (act : Option SigAction) (oact : BitVec 64) :
    Except Errno SigTask × List Store :=
  if !sigValid sig then (.error .einval, [])
  else if sig = sigkill ∨ sig = sigstop then (.error .einval, [])
  else
    (.ok (act.elim t fun a => { t with actions := update t.actions sig.toNat a }),
      if oact = 0 then [] else [⟨oact, 24⟩])

/-- The new blocked set of `signal_do_sigprocmask`, for `SIG_BLOCK`, `SIG_UNBLOCK` and
`SIG_SETMASK`. -/
def SigTask.newBlocked (how : Int) (set : BitVec 64) : Option (BitVec 64) :=
  if how = 0 then some (t.blocked ||| set)
  else if how = 1 then some (t.blocked &&& ~~~set)
  else if how = 2 then some set
  else none

/-- `signal_do_sigprocmask`, with what it stores through `oldset`. -/
def SigTask.sigprocmask (how : Int) (set : Option (BitVec 64)) (oldset : BitVec 64) :
    Except Errno SigTask × List Store :=
  let stores := if oldset = 0 then [] else [⟨oldset, 8⟩]
  match set with
  | none => (.ok t, stores)
  | some set =>
    match t.newBlocked how set with
    | none => (.error .einval, stores)
    | some b => (.ok { t with blocked := b &&& ~~~sigBit sigkill &&& ~~~sigBit sigstop }, stores)

/-- `signal_send` of a valid signal. -/
def SigTask.send (sig : Nat) : SigTask := { t with pending := t.pending ||| sigBit sig }

/-- The child of `task_fork`, with `signal_copy`. -/
def SigTask.forkChild : SigTask :=
  { t with
    frame := t.frame.setA0 0
    pending := 0
    inHandler := false
    sigframeSp := 0 }

/-- `signal_reset`, which `do_execve` calls. -/
def SigTask.reset : SigTask :=
  { t with
    pending := 0
    blocked := 0
    inHandler := false
    sigframeSp := 0
    actions := fun _ => ⟨sigDfl, 0, 0⟩ }

end Model

/-! ## Signal sets -/

section Masks

variable {t : SigTask} {sig j : Nat}

theorem mem_signals : sig ∈ signals ↔ 1 ≤ sig ∧ sig < 32 := by
  unfold signals
  rw [mem_range'_1]

theorem getLsbD_sigBit : (sigBit sig).getLsbD j = (decide (sig < 64) && decide (sig = j)) :=
  BitVec.getLsbD_twoPow ..

theorem getLsbD_andNot (m b : BitVec 64) :
    (m &&& ~~~b).getLsbD j = (m.getLsbD j && !b.getLsbD j) := by
  rw [BitVec.getLsbD_and, BitVec.getLsbD_not]
  by_cases hj : j < 64
  · rw [decide_eq_true hj, Bool.true_and]
  · rw [BitVec.getLsbD_of_ge m j (Nat.le_of_not_lt hj), Bool.false_and, Bool.false_and]

/-- A bit of a set without one signal. -/
theorem getLsbD_without (m : BitVec 64) :
    (m &&& ~~~sigBit sig).getLsbD j = (m.getLsbD j && decide (j ≠ sig)) := by
  rw [getLsbD_andNot, getLsbD_sigBit]
  by_cases hj : j < 64
  · by_cases he : sig = j
    · subst he
      simp [hj]
    · simp [he, Ne.symm he]
  · rw [BitVec.getLsbD_of_ge m j (Nat.le_of_not_lt hj), Bool.false_and, Bool.false_and]

/-- The bits that a loop over signals sets one by one. -/
theorem getLsbD_foldl_sigBit (p : Nat → Bool) (l : List Nat) (m : BitVec 64)
    (hl : ∀ x ∈ l, x < 64) :
    (l.foldl (fun m sig => if p sig then m ||| sigBit sig else m) m).getLsbD j =
      (m.getLsbD j || (decide (j ∈ l) && p j)) := by
  induction l generalizing m with
  | nil => simp
  | cons x l ih =>
    rw [foldl_cons, ih _ fun y hy => hl y (mem_cons_of_mem x hy)]
    have hx := hl x mem_cons_self
    cases hp : p x with
    | false =>
      by_cases hj : j = x
      · subst hj
        simp [hp]
      · simp [hj]
    | true =>
      by_cases hj : j = x
      · subst hj
        simp [hp, hx, getLsbD_sigBit]
      · simp [hj, Ne.symm hj, getLsbD_sigBit]

theorem getLsbD_nodferMask : t.nodferMask.getLsbD sig =
      (decide (sig ∈ signals) && (t.pending.getLsbD sig && t.nodefer sig)) := by
  unfold nodferMask
  rw [getLsbD_foldl_sigBit (fun sig => t.pending.getLsbD sig && t.nodefer sig) _ _ fun x hx => by
    have := mem_signals.1 hx
    omega]
  simp

/-- A signal that may be delivered: it is pending and not blocked, and a running handler lets it
through. -/
def SigTask.Deliverable (t : SigTask) (sig : Nat) : Prop :=
  t.pending.getLsbD sig = true ∧ t.blocked.getLsbD sig = false ∧
    (t.inHandler = true → sig = sigkill ∨ t.nodefer sig = true)

theorem getLsbD_deliverMask (hsig : sig ∈ signals) :
    t.deliverMask.getLsbD sig = true ↔ t.Deliverable sig := by
  unfold deliverMask SigTask.Deliverable
  cases hin : t.inHandler with
  | false =>
    rw [if_neg Bool.false_ne_true, getLsbD_andNot, Bool.and_eq_true, Bool.not_eq_true']
    exact ⟨fun h => ⟨h.1, h.2, nofun⟩, fun h => ⟨h.1, h.2.1⟩⟩
  | true =>
    rw [if_pos rfl, BitVec.getLsbD_or, BitVec.getLsbD_and, getLsbD_andNot, getLsbD_andNot,
      getLsbD_nodferMask, getLsbD_sigBit, decide_eq_true hsig]
    simp only [Bool.true_and, Bool.or_eq_true, Bool.and_eq_true, Bool.not_eq_true',
      decide_eq_true_eq, true_imp_iff]
    constructor
    · rintro (⟨⟨hp, hb⟩, -, rfl⟩ | ⟨⟨hp, hn⟩, hb⟩)
      · exact ⟨hp, hb, .inl rfl⟩
      · exact ⟨hp, hb, .inr hn⟩
    · rintro ⟨hp, hb, rfl | hn⟩
      · exact .inl ⟨⟨hp, hb⟩, by decide, rfl⟩
      · exact .inr ⟨⟨hp, hn⟩, hb⟩

theorem getNextSignal_eq_zero : t.getNextSignal = 0 ↔ ∀ sig ∈ signals, ¬ t.Deliverable sig := by
  unfold getNextSignal
  cases hfind : signals.find? fun sig => t.deliverMask.getLsbD sig with
  | none =>
    rw [find?_eq_none] at hfind
    refine ⟨fun _ sig hsig hd => hfind sig hsig ((getLsbD_deliverMask hsig).2 hd), fun _ => rfl⟩
  | some x =>
    have hx := mem_of_find?_eq_some hfind
    have hbit := find?_some hfind
    constructor
    · intro h0
      obtain rfl : x = 0 := h0
      exact absurd (mem_signals.1 hx).1 (by decide)
    · intro hall
      exact absurd ((getLsbD_deliverMask hx).1 hbit) (hall x hx)

/-- `get_next_signal_locked` chooses the lowest signal that may be delivered. -/
theorem getNextSignal_eq_iff (hsig : sig ∈ signals) : t.getNextSignal = sig ↔
      t.Deliverable sig ∧ ∀ low ∈ signals, low < sig → ¬ t.Deliverable low := by
  have hrange := mem_signals.1 hsig
  have hsome : t.getNextSignal = sig ↔
      (signals.find? fun sig => t.deliverMask.getLsbD sig) = some sig := by
    unfold getNextSignal
    cases signals.find? fun sig => t.deliverMask.getLsbD sig with
    | none => exact ⟨fun h => absurd h (by rw [Option.getD_none]; omega), nofun⟩
    | some x => exact ⟨congrArg some, Option.some.inj⟩
  unfold signals at hsome
  rw [hsome, find?_range'_eq_some]
  constructor
  · rintro ⟨hbit, -, hlow⟩
    refine ⟨(getLsbD_deliverMask hsig).1 hbit, fun low hl hlt hd => ?_⟩
    have hclear := hlow low (mem_signals.1 hl).1 hlt
    rw [(getLsbD_deliverMask hl).2 hd] at hclear
    cases hclear
  · rintro ⟨hd, hlow⟩
    refine ⟨(getLsbD_deliverMask hsig).2 hd, hsig, fun low h1 h2 => ?_⟩
    have hl : low ∈ signals := mem_signals.2 ⟨h1, by omega⟩
    rw [Bool.not_eq_true', ← Bool.not_eq_true]
    exact fun hbit => hlow low hl h2 ((getLsbD_deliverMask hl).1 hbit)

theorem getNextSignal_mem (h : t.getNextSignal ≠ 0) :
    t.getNextSignal ∈ signals ∧ t.Deliverable t.getNextSignal := by
  unfold getNextSignal at h ⊢
  cases hfind : signals.find? fun sig => t.deliverMask.getLsbD sig with
  | none =>
    rw [hfind] at h
    exact absurd rfl h
  | some x =>
    have hx := mem_of_find?_eq_some hfind
    exact ⟨hx, (getLsbD_deliverMask hx).1 (find?_some hfind)⟩

end Masks

/-! ## Delivery -/

section Deliver

variable {t : SigTask} {sig : Nat}

/-- The signal has a handler of the user. -/
def SigTask.Caught (t : SigTask) (sig : Nat) : Prop :=
  sig ≠ sigkill ∧ (t.actions sig).handler ≠ sigDfl ∧ (t.actions sig).handler ≠ sigIgn

/-- The task ends, the signal is dropped, or its handler is entered. -/
theorem deliverOne_cases (t : SigTask) (sig : Nat) : t.deliverOne sig = t.exitSignal sig ∨
      (sig ≠ sigkill ∧ t.deliverOne sig = t.clearPending sig) ∨
      (t.Caught sig ∧ userAccessOk t.frameAddr sigframeSize = true ∧
        t.deliverOne sig = t.withFrame sig) := by
  unfold deliverOne
  by_cases hexit : sig = sigkill ∨
      ((t.actions sig).handler = sigDfl ∧ sigDefaultTerminate sig = true)
  · exact .inl (if_pos hexit)
  rw [if_neg hexit]
  have hkill : sig ≠ sigkill := fun h => hexit (.inl h)
  by_cases hign : (t.actions sig).handler = sigIgn
  · exact .inr (.inl ⟨hkill, if_pos hign⟩)
  rw [if_neg hign]
  by_cases hdfl : (t.actions sig).handler = sigDfl
  · exact .inr (.inl ⟨hkill, if_pos hdfl⟩)
  rw [if_neg hdfl]
  unfold setupSignalFrame
  cases hok : userAccessOk t.frameAddr sigframeSize with
  | true => exact .inr (.inr ⟨⟨hkill, hdfl, hign⟩, rfl, rfl⟩)
  | false => exact .inl rfl

theorem deliverOne_of_caught (hc : t.Caught sig) : t.deliverOne sig =
    if userAccessOk t.frameAddr sigframeSize then t.withFrame sig else t.exitSignal sig := by
  unfold deliverOne setupSignalFrame
  rw [if_neg (fun h => h.elim hc.1 fun h => hc.2.1 h.1), if_neg hc.2.2, if_neg hc.2.1]
  cases userAccessOk t.frameAddr sigframeSize with
  | true => rfl
  | false => rfl

/-- A property that the delivery of one signal keeps is kept by the loop. -/
theorem deliverLoop_induct {P : SigTask → Prop}
    (hstep : ∀ t, P t → t.getNextSignal ≠ 0 → P (t.deliverOne t.getNextSignal)) (fuel : Nat)
    (t : SigTask) (h : P t) : P (deliverLoop fuel t) := by
  fun_induction deliverLoop fuel t with
  | case1 => exact h
  | case2 => exact h
  | case3 _ t h0 => exact hstep t h h0
  | case4 _ t h0 _ _ ih => exact ih (hstep t h h0)

theorem deliverPending_of_caught (hnext : t.getNextSignal = sig) (h0 : sig ≠ 0)
    (hc : t.Caught sig) : t.deliverPending =
      if userAccessOk t.frameAddr sigframeSize then t.withFrame sig else t.exitSignal sig := by
  show deliverLoop (31 + 1) t = _
  unfold deliverLoop
  rw [hnext, if_neg h0, deliverOne_of_caught hc]
  cases userAccessOk t.frameAddr sigframeSize with
  | true => exact if_pos (Bool.or_true _)
  | false => rfl

theorem deliverPending_of_idle (h : ∀ sig ∈ signals, t.pending.getLsbD sig = false) :
    t.deliverPending = t := by
  have hnext : t.getNextSignal = 0 := getNextSignal_eq_zero.2 fun sig hsig hd => by
    rw [SigTask.Deliverable, h sig hsig] at hd
    cases hd.1
  exact if_pos hnext

/-- What `signal_deliver_pending` can do: end the task, drop signals, or drop signals and then enter
a handler. -/
theorem deliverPending_cases (t : SigTask) :
    t.deliverPending.exited.isSome = true ∨ ∃ p, t.deliverPending = { t with pending := p } ∨
      ∃ sig, SigTask.Caught t sig ∧ userAccessOk t.frameAddr sigframeSize = true ∧
        t.deliverPending = withFrame { t with pending := p } sig := by
  suffices hloop : ∀ fuel p, let t' := deliverLoop fuel { t with pending := p }
      t'.exited.isSome = true ∨ ∃ p, t' = { t with pending := p } ∨
        ∃ sig, SigTask.Caught t sig ∧ userAccessOk t.frameAddr sigframeSize = true ∧
          t' = withFrame { t with pending := p } sig from hloop nsig t.pending
  intro fuel
  induction fuel with
  | zero => exact fun p => .inr ⟨p, .inl rfl⟩
  | succ fuel ih =>
    intro p
    unfold deliverLoop
    split
    · exact .inr ⟨p, .inl rfl⟩
    dsimp only
    rcases deliverOne_cases { t with pending := p }
      (getNextSignal { t with pending := p }) with hone | ⟨-, hone⟩ | ⟨hc, hok, hone⟩
    · rw [hone]
      exact .inl rfl
    · rw [hone]
      split
      · exact .inr ⟨_, .inl rfl⟩
      · exact ih _
    · rw [hone]
      exact .inr ⟨p, .inr ⟨_, hc, hok, by rw [if_pos (by exact Bool.or_true _)]⟩⟩

/-- The number of pending signals. -/
def SigTask.pendingCount (t : SigTask) : Nat := signals.countP fun sig => t.pending.getLsbD sig

theorem countP_lt_of_imp {p q : Nat → Bool} {l : List Nat} (himp : ∀ x, p x = true → q x = true)
    (hx : sig ∈ l) (hp : p sig = false) (hq : q sig = true) : l.countP p < l.countP q := by
  rw [countP_eq_length_filter, countP_eq_length_filter]
  have hsub : filter p l <+ filter q l := monotone_filter_right l himp
  refine lt_of_le_of_ne hsub.length_le fun heq => ?_
  have hmem : sig ∈ filter p l := hsub.eq_of_length heq ▸ mem_filter.2 ⟨hx, hq⟩
  rw [(mem_filter.1 hmem).2] at hp
  cases hp

theorem pendingCount_clearPending (hsig : sig ∈ signals) (hp : t.pending.getLsbD sig = true) :
    (t.clearPending sig).pendingCount < t.pendingCount := by
  refine countP_lt_of_imp (fun x hx => ?_) hsig ?_ hp
  · rw [clearPending, getLsbD_without, Bool.and_eq_true] at hx
    exact hx.1
  · rw [clearPending, getLsbD_without, decide_eq_false (fun h => h rfl), Bool.and_false]

/-- The loop ends: the task is gone, in a handler, or has nothing left to deliver. -/
theorem deliverLoop_spec (fuel : Nat) (t : SigTask) (hfuel : t.pendingCount < fuel) :
    (deliverLoop fuel t).exited.isSome = true ∨ (deliverLoop fuel t).inHandler = true ∨
      (deliverLoop fuel t).getNextSignal = 0 := by
  fun_induction deliverLoop fuel t with
  | case1 => exact absurd hfuel (Nat.not_lt_zero _)
  | case2 _ _ h0 => exact .inr (.inr h0)
  | case3 _ _ _ _ hstop =>
    rw [Bool.or_eq_true] at hstop
    exact hstop.imp id .inl
  | case4 _ t h0 t' hstop ih =>
    rw [Bool.not_eq_true, Bool.or_eq_false_iff] at hstop
    obtain ⟨hmem, hd⟩ := getNextSignal_mem h0
    apply ih
    rcases deliverOne_cases t t.getNextSignal with hone | ⟨-, hone⟩ | ⟨-, -, hone⟩
    · rw [show t' = _ from hone] at hstop
      cases hstop.1
    · have hlt := pendingCount_clearPending hmem hd.1
      rw [show t' = _ from hone]
      omega
    · rw [show t' = _ from hone] at hstop
      cases hstop.2

/-- The delivery on the way to user space ends with the task gone, in a handler, or with no signal
left that may be delivered. -/
theorem deliverPending_spec (t : SigTask) :
    t.deliverPending.exited.isSome = true ∨ t.deliverPending.inHandler = true ∨
      t.deliverPending.getNextSignal = 0 := by
  apply deliverLoop_spec
  have hle : t.pendingCount ≤ signals.length := countP_le_length
  exact lt_of_le_of_lt hle (by decide)

end Deliver

end BrkKernel.Signal
