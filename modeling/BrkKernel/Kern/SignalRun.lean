import BrkKernel.Kern.Signal
import BrkKernel.Lib.Actors

/-!
# Signals that cannot be blocked

What can happen to a task, one operation after the other (`SigOp`): user code runs, signals are sent
and delivered, the signal calls are made, the task forks or executes a program. After a fork the run
follows the child.

`signal_do_sigprocmask` takes `SIGKILL` and `SIGSTOP` out of the blocked set, but the mask of an
action and the set that `sigreturn` loads from the frame are used as they are. When these two are
clean, the two signals are never blocked, and a pending `SIGKILL` is chosen unless a signal with a
lower number may be delivered (`kill_stop_never_blocked`).
-/

set_option autoImplicit false

namespace BrkKernel.Signal

open Lib Function

/-- An operation of a task, or on it. -/
inductive SigOp where
  /-- User code runs and leaves these registers and this memory. -/
  | user (frame : TrapFrame) (mem : UserMem)
  | send (sig : Nat)
  | sigaction (sig : Int) (act : Option SigAction) (oact : BitVec 64)
  | sigprocmask (how : Int) (set : Option (BitVec 64)) (oldset : BitVec 64)
  | deliver
  | sigreturn
  | fork
  /-- `do_execve` replaces the registers and the memory. -/
  | exec (frame : TrapFrame) (mem : UserMem)

/-- The state that a call leaves. -/
def SigTask.after (t : SigTask) : Except Errno SigTask → SigTask
  | .ok t' => t'
  | .error _ => t

/-- The effect of an operation on a task that is there. -/
def SigOp.run (t : SigTask) : SigOp → SigTask
  | .user frame mem => { t with frame := frame, mem := mem }
  | .send sig => if sig ∈ signals then t.send sig else t
  | .sigaction sig act oact => t.after (t.sigaction sig act oact).1
  | .sigprocmask how set oldset => t.after (t.sigprocmask how set oldset).1
  | .deliver => t.deliverPending
  | .sigreturn => t.after t.sigreturn
  | .fork => t.forkChild
  | .exec frame mem => { t.reset with frame := frame, mem := mem }

/-- A task as `task_create` makes it. -/
def newTask (frame : TrapFrame) (mem : UserMem) : SigTask :=
  { frame := frame
    pending := 0
    blocked := 0
    inHandler := false
    sigframeSp := 0
    actions := fun _ => ⟨sigDfl, 0, 0⟩
    mem := mem
    exited := none }

/-- A set without `SIGKILL` and `SIGSTOP`. -/
def Clean (m : BitVec 64) : Prop := m.getLsbD sigkill = false ∧ m.getLsbD sigstop = false

instance (m : BitVec 64) : Decidable (Clean m) := inferInstanceAs (Decidable (_ ∧ _))

/-- No action of the task names the two signals in its mask, and `sigreturn` finds neither in the
frame. -/
def SigOp.MaskClean (t : SigTask) : SigOp → Prop
  | .sigaction _ act _ => ∀ a ∈ act, Clean a.mask
  | .sigreturn => Clean (t.mem (t.sigframeSp + 304))
  | _ => True

/-- A step of a run in which the sets that come from the user are clean. -/
inductive CleanStep (t : SigTask) : SigTask → Prop
  | mk (op : SigOp) (halive : t.exited = none) (hclean : op.MaskClean t) : CleanStep t (op.run t)

/-! ## The invariant -/

section Inv

variable {t : SigTask}

/-- The blocked set and the masks are clean, and nobody catches the two signals. -/
structure MaskInv (t : SigTask) : Prop where
  blocked : Clean t.blocked
  masks : ∀ sig, Clean (t.actions sig).mask
  kill : (t.actions sigkill).handler = sigDfl
  stop : (t.actions sigstop).handler = sigDfl

theorem Clean.zero : Clean 0 := by decide

theorem Clean.or {a b : BitVec 64} (ha : Clean a) (hb : Clean b) : Clean (a ||| b) := by
  refine ⟨?_, ?_⟩
  · rw [BitVec.getLsbD_or, ha.1, hb.1, Bool.or_false]
  · rw [BitVec.getLsbD_or, ha.2, hb.2, Bool.or_false]

theorem Clean.sigBit {sig : Nat} (hk : sig ≠ sigkill) (hs : sig ≠ sigstop) :
    Clean (Signal.sigBit sig) := by
  refine ⟨?_, ?_⟩
  · rw [getLsbD_sigBit, decide_eq_false hk, Bool.and_false]
  · rw [getLsbD_sigBit, decide_eq_false hs, Bool.and_false]

/-- What `signal_do_sigprocmask` does to the new set. -/
theorem clean_without (m : BitVec 64) :
    Clean (m &&& ~~~Signal.sigBit sigkill &&& ~~~Signal.sigBit sigstop) := by
  refine ⟨?_, ?_⟩
  · rw [getLsbD_without, getLsbD_without, decide_eq_false fun h => h rfl, Bool.and_false,
      Bool.false_and]
  · rw [getLsbD_without, decide_eq_false fun h => h rfl, Bool.and_false]

theorem MaskInv.newTask (frame : TrapFrame) (mem : UserMem) : MaskInv (Signal.newTask frame mem) :=
  ⟨.zero, fun _ => .zero, rfl, rfl⟩

section

variable (h : MaskInv t)

include h

/-- The handler of `SIGSTOP` cannot be entered, as nobody catches it. -/
theorem MaskInv.deliverOne (sig : Nat) : MaskInv (t.deliverOne sig) := by
  rcases deliverOne_cases t sig with hone | ⟨-, hone⟩ | ⟨hc, -, hone⟩
  · rw [hone]
    exact ⟨h.blocked, h.masks, h.kill, h.stop⟩
  · rw [hone]
    exact ⟨h.blocked, h.masks, h.kill, h.stop⟩
  rw [hone]
  have hstop : sig ≠ sigstop := by
    rintro rfl
    exact hc.2.1 h.stop
  refine ⟨Clean.or ?_ (h.masks sig), h.masks, h.kill, h.stop⟩
  split
  · exact h.blocked
  · exact h.blocked.or (.sigBit hc.1 hstop)

theorem MaskInv.sigaction {sig : Int} {act : Option SigAction} (oact : BitVec 64)
    (hclean : ∀ a ∈ act, Clean a.mask) : MaskInv (t.after (t.sigaction sig act oact).1) := by
  unfold SigTask.sigaction
  split
  · exact h
  split
  · exact h
  next hv hsig =>
    cases act with
    | none => exact h
    | some a =>
      have hrange : 0 < sig ∧ sig < nsig := by simpa [sigValid] using hv
      have hk : sigkill ≠ sig.toNat := fun hk => hsig (.inl (by omega))
      have hs : sigstop ≠ sig.toNat := fun hs => hsig (.inr (by omega))
      refine ⟨h.blocked, ?_, ?_, ?_⟩
      · exact (forall_update_iff t.actions fun _ a => Clean a.mask).2
          ⟨hclean a rfl, fun x _ => h.masks x⟩
      · exact (congrArg SigAction.handler (update_of_ne hk a t.actions)).trans h.kill
      · exact (congrArg SigAction.handler (update_of_ne hs a t.actions)).trans h.stop

theorem MaskInv.sigprocmask (how : Int) (set : Option (BitVec 64))
    (oldset : BitVec 64) : MaskInv (t.after (t.sigprocmask how set oldset).1) := by
  unfold SigTask.sigprocmask
  dsimp only
  split
  · exact h
  split
  · exact h
  · exact ⟨clean_without _, h.masks, h.kill, h.stop⟩

theorem MaskInv.sigreturn (hclean : Clean (t.mem (t.sigframeSp + 304))) :
    MaskInv (t.after t.sigreturn) := by
  unfold SigTask.sigreturn
  split
  · exact h
  · split
    · exact h
    · exact ⟨hclean, h.masks, h.kill, h.stop⟩

theorem MaskInv.run {op : SigOp} (hclean : op.MaskClean t) : MaskInv (op.run t) := by
  cases op with
  | user frame mem => exact ⟨h.blocked, h.masks, h.kill, h.stop⟩
  | send sig =>
    unfold SigOp.run
    dsimp only
    split
    · exact ⟨h.blocked, h.masks, h.kill, h.stop⟩
    · exact h
  | sigaction sig act oact => exact h.sigaction oact hclean
  | sigprocmask how set oldset => exact h.sigprocmask how set oldset
  | deliver => exact deliverLoop_induct (fun t' h' _ => h'.deliverOne _) _ t h
  | sigreturn => exact h.sigreturn hclean
  | fork => exact ⟨h.blocked, h.masks, h.kill, h.stop⟩
  | exec frame mem => exact ⟨.zero, fun _ => .zero, rfl, rfl⟩

/-- An unblocked `SIGKILL` may always be delivered. -/
theorem MaskInv.deliverable_kill (hp : t.pending.getLsbD sigkill = true) : t.Deliverable sigkill :=
  ⟨hp, h.blocked.1, fun _ => .inl rfl⟩

end

end Inv

/-- What is promised about the two signals. -/
structure NeverBlocked (t : SigTask) : Prop where
  clean : Clean t.blocked
  /-- A pending `SIGKILL` is chosen, unless a signal with a lower number may be delivered. -/
  chosen : t.pending.getLsbD sigkill = true →
    (t.getNextSignal = sigkill ↔ ∀ low ∈ signals, low < sigkill → ¬ t.Deliverable low)

/-- While the user passes clean sets, `SIGKILL` and `SIGSTOP` are never blocked, and a pending
`SIGKILL` is chosen unless a lower signal may be delivered. -/
theorem kill_stop_never_blocked {frame : TrapFrame} {mem : UserMem} {t : SigTask}
    (hrun : Run CleanStep (newTask frame mem) t) : NeverBlocked t := by
  have hinv : MaskInv t := Run.invariant (fun _ _ hs h => by
    cases hs with
    | mk op halive hclean => exact h.run hclean) hrun (MaskInv.newTask frame mem)
  refine ⟨hinv.blocked, fun hp => ?_⟩
  rw [getNextSignal_eq_iff (by decide)]
  exact ⟨fun h => h.2, fun h => ⟨hinv.deliverable_kill hp, h⟩⟩

/-- A task that catches the signal `sig` with a handler at `0x1000` and the given mask, gets `sig`,
enters the handler and then gets `SIGKILL`. -/
def killedInHandler (sig : Nat) (mask : BitVec 64) : SigTask :=
  let t := newTask (fun _ => 0x10000) fun _ => 0
  let t := SigOp.run t (.sigaction sig (some ⟨0x1000, mask, 0⟩) 0)
  SigOp.run (SigOp.run (SigOp.run t (.send sig)) .deliver) (.send sigkill)

theorem killedInHandler_run : Run CleanStep (newTask (fun _ => 0x10000) fun _ => 0)
    (killedInHandler 10 0) :=
  (((Relation.ReflTransGen.refl.tail
    (.mk (.sigaction 10 (some ⟨0x1000, 0, 0⟩) 0) rfl fun a ha => by cases ha; exact .zero)).tail
    (.mk (.send 10) rfl trivial)).tail
    (.mk .deliver rfl trivial)).tail
    (.mk (.send sigkill) (by decide +kernel) trivial)

theorem kill_stop_never_blocked_in_handler :
    NeverBlocked (killedInHandler 10 0) ∧ (killedInHandler 10 0).getNextSignal = sigkill :=
  ⟨kill_stop_never_blocked killedInHandler_run,
    ((kill_stop_never_blocked killedInHandler_run).chosen (by decide +kernel)).2
      (by unfold SigTask.Deliverable; decide +kernel)⟩

/-- A task that catches `SIGHUP` and has both `SIGHUP` and `SIGKILL` pending. -/
def hupAndKill : SigTask :=
  let t := newTask (fun _ => 0x10000) fun _ => 0
  let t := SigOp.run t (.sigaction 1 (some ⟨0x1000, 0, 0⟩) 0)
  SigOp.run (SigOp.run t (.send 1)) (.send sigkill)

/-- A mask with `SIGKILL` in it blocks it while the handler runs. And without any mask a caught
signal with a lower number goes first. -/
theorem kill_blocked_by_mask : ((killedInHandler 10 (sigBit sigkill)).exited = none ∧
      (killedInHandler 10 (sigBit sigkill)).pending.getLsbD sigkill = true ∧
      (killedInHandler 10 (sigBit sigkill)).blocked.getLsbD sigkill = true ∧
      (killedInHandler 10 (sigBit sigkill)).getNextSignal = 0) ∧
    (hupAndKill.pending.getLsbD sigkill = true ∧ hupAndKill.getNextSignal = 1 ∧
      hupAndKill.deliverPending.exited = none) := by
  decide +kernel

end BrkKernel.Signal
