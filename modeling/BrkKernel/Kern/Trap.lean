import BrkKernel.Kern.SignalFrame

/-!
# System calls and signals

The path of an `ecall` from user mode through `trap_handler`: signals are delivered, the program
counter is moved past the instruction, the call is dispatched, and signals are delivered once more.
A system call is a function of its arguments, the memory and the signal masks of its task, and the
rest of the kernel, of an arbitrary type `W`.

`delivery_transparent`: a signal that the task catches leaves the interrupted call alone exactly
when it arrives during the call, so that the second delivery takes it. One that is pending already
is taken by the first: then the call is made with the registers of the handler, and the handler is
entered at its second instruction.
-/

set_option autoImplicit false

namespace BrkKernel.Trap

open Signal Function

variable {i : Fin 38} {sig : Nat} {t : SigTask} (f : TrapFrame) (v : BitVec 64)

/-! ## The model -/

/-- `SYS_sigreturn`. -/
def sysSigreturn : BitVec 64 := 191

/-- What a system call finds in its task and may change there. -/
structure Shared where
  mem : UserMem
  blocked : BitVec 64
  actions : Nat → SigAction

/-- A function of `systable`, with its return value. -/
abbrev SysCall (W : Type) : Type :=
  (Fin 6 → BitVec 64) → Shared → W → BitVec 64 × Shared × W

/-- A system call that has been made. -/
structure Call where
  num : BitVec 64
  args : Fin 6 → BitVec 64
deriving DecidableEq

/-- A task in its kernel, with the calls other than `sigreturn` that have been made. -/
structure Machine (W : Type) where
  task : SigTask
  world : W
  calls : List Call

section Model

variable {W : Type} (table : BitVec 64 → Option (SysCall W))

/-- An error number as the call returns it. -/
def errnoRet (e : Errno) : BitVec 64 := -BitVec.ofNat 64 e.number

/-- The function of `systable` for the number, if there is one. -/
def dispatch (c : Call) (sh : Shared) (w : W) : BitVec 64 × Shared × W :=
  match table c.num with
  | some f => f c.args sh w
  | none => (errnoRet .enosys, sh, w)

def callOf (f : TrapFrame) : Call := ⟨f.a7, f.arg⟩

def sharedOf (t : SigTask) : Shared := ⟨t.mem, t.blocked, t.actions⟩

/-- The task after a call other than `sigreturn`. -/
def withResult (t : SigTask) (r : BitVec 64 × Shared × W) : SigTask :=
  { t with
    frame := t.frame.setA0 r.1
    mem := r.2.1.mem
    blocked := r.2.1.blocked
    actions := r.2.1.actions }

/-- `sys_sigreturn`, whose value is the restored `a0`. -/
def sigreturnTask (t : SigTask) : SigTask :=
  match t.sigreturn with
  | .ok t' => { t' with frame := t'.frame.setA0 t'.frame.a0 }
  | .error e => { t with frame := t.frame.setA0 (errnoRet e) }

/-- `syscall`. -/
def syscall (m : Machine W) : Machine W :=
  if m.task.frame.a7 = sysSigreturn then { m with task := sigreturnTask m.task }
  else
    let r := dispatch table (callOf m.task.frame) (sharedOf m.task) m.world
    { task := withResult m.task r
      world := r.2.2
      calls := m.calls ++ [callOf m.task.frame] }

/-- `prepare_to_ret_to_user`: `sstatus` is what the processor has, without `SPP`, `SIE` and `SUM`
and with `SPIE`. -/
def prepareToRetToUser (csr : BitVec 64) (f : TrapFrame) : TrapFrame :=
  f.setSstatus
    ((((csr &&& ~~~BitVec.twoPow 64 8) ||| BitVec.twoPow 64 5) &&& ~~~BitVec.twoPow 64 1) &&&
      ~~~BitVec.twoPow 64 18)

/-- The task when its call begins, after the first delivery. The signals that are sent to it during
the call are added here. -/
def enterCall (arrivals : BitVec 64) (t : SigTask) : SigTask :=
  { t with
    frame := t.frame.setPc (t.frame.pc + 4)
    pending := t.pending ||| arrivals }

/-- The end of `trap_handler`. -/
def leaveTrap (csr : BitVec 64) (t : SigTask) : SigTask :=
  SigTask.deliverPending { t with frame := prepareToRetToUser csr t.frame }

/-- `trap_handler` for an `ecall` from user mode. A task that a signal ends does not come back. -/
def trapHandler (arrivals csr : BitVec 64) (m : Machine W) : Machine W :=
  let t := m.task.deliverPending
  if t.exited.isSome then { m with task := t }
  else
    let m' := syscall table { m with task := enterCall arrivals t }
    { m' with task := leaveTrap csr m'.task }

end Model

/-! ## One signal -/

/-- A system call of a task that is to handle the signal `sig`: it is pending already when the call
is made (`early`), or it arrives during the call. -/
structure Scene (W : Type) where
  table : BitVec 64 → Option (SysCall W)
  task : SigTask
  world : W
  arrivals : BitVec 64
  csr : BitVec 64
  sig : Nat
  early : Bool

section Scene

variable {W : Type} (c : Scene W)

/-- The call that the program makes. -/
def Scene.call : Call := callOf c.task.frame

/-- What it does, with the arguments that the program gives. -/
def Scene.effect : BitVec 64 × Shared × W :=
  dispatch c.table c.call (sharedOf c.task) c.world

/-- The task when the undisturbed call returns. -/
def Scene.atReturn : SigTask :=
  let t := withResult (enterCall c.arrivals c.task) c.effect
  { t with frame := prepareToRetToUser c.csr t.frame }

/-- The task when the signal is to be taken. -/
def Scene.taken : SigTask := if c.early then c.task else c.atReturn

/-- The machine when the trap is over. -/
def Scene.trapped : Machine W := trapHandler c.table c.arrivals c.csr ⟨c.task, c.world, []⟩

/-- The signal is caught and not blocked, it is the only one, and the call is not `sigreturn`. -/
structure Scene.Signalled : Prop where
  alive : c.task.exited = none
  ordinary : c.task.frame.a7 ≠ sysSigreturn
  valid : c.sig ∈ signals
  pending : ∀ j ∈ signals, c.task.pending.getLsbD j = (c.early && decide (j = c.sig))
  arrivals : ∀ j ∈ signals, c.arrivals.getLsbD j = (!c.early && decide (j = c.sig))
  deliverable : c.taken.Deliverable c.sig
  caught : c.taken.Caught c.sig

/-- The program goes on after its call, which has been made once and as the program made it. -/
structure Scene.Resumed (m : Machine W) : Prop where
  alive : m.task.exited = none
  pc : m.task.frame.pc = c.task.frame.pc + 4
  calls : m.calls = [c.call]
  ret : m.task.frame.a0 = c.effect.1
  regs : ∀ i : Fin 38, i.val < 32 → i ≠ 10 → m.task.frame i = c.task.frame i

/-- The handler has run, with any registers and memory at its end, and calls `sigreturn`. -/
def Scene.handlerDone (f : TrapFrame) (mem : UserMem) (csr : BitVec 64) : Machine W :=
  trapHandler c.table 0 csr { c.trapped with task := SigOp.run c.trapped.task (.user f mem) }

/-- The handler is entered at its start, and if it leaves its frame alone the program does not
notice it. -/
structure Scene.Transparent : Prop where
  alive : c.trapped.task.exited = none
  handler : c.trapped.task.frame.pc = (c.taken.actions c.sig).handler
  signo : c.trapped.task.frame.a0 = BitVec.ofNat 64 c.sig
  back : ∀ f mem csr, f.a7 = sysSigreturn →
    (∀ i < 40, mem (c.task.frameAddr + BitVec.ofNat 64 (8 * i)) =
      c.trapped.task.mem (c.task.frameAddr + BitVec.ofNat 64 (8 * i))) →
    c.Resumed (c.handlerDone f mem csr)

end Scene

section Proofs

variable {W : Type} {c : Scene W} {table : BitVec 64 → Option (SysCall W)} {m : Machine W}

/-- What is above the 32 registers is none of them. -/
theorem update_reg {k : Fin 38} (hk : 32 ≤ k.val) (hi : i.val < 32) : update f k v i = f i := by
  apply update_of_ne
  rintro rfl
  omega

theorem setPc_reg (hi : i.val < 32) : f.setPc v i = f i := update_reg f v (by decide) hi

theorem prepareToRetToUser_reg (csr : BitVec 64) (f : TrapFrame) (hi : i.val < 32) :
    prepareToRetToUser csr f i = f i := update_reg f _ (by decide) hi

theorem setA0_reg (hi : i ≠ 10) : f.setA0 v i = f i := by
  exact update_of_ne hi v f

/-- The call is in the registers, not in the program counter. -/
theorem callOf_setPc : callOf (f.setPc v) = callOf f := by
  have hargs : (f.setPc v).arg = f.arg := by
    funext i
    exact setPc_reg f v (by show 10 + i.val < 32; omega)
  unfold callOf
  rw [hargs]
  rfl

/-- A task that survives the first delivery makes its call. -/
theorem trapHandler_of_alive {arrivals csr : BitVec 64}
    (hd : m.task.deliverPending = t) (halive : t.exited = none) :
    trapHandler table arrivals csr m =
      ⟨leaveTrap csr (syscall table { m with task := enterCall arrivals t }).task,
        (syscall table { m with task := enterCall arrivals t }).world,
        (syscall table { m with task := enterCall arrivals t }).calls⟩ := by
  unfold trapHandler
  rw [hd]
  dsimp only
  rw [halive]
  rfl

theorem syscall_of_ne (h : m.task.frame.a7 ≠ sysSigreturn) : syscall table m =
      ⟨withResult m.task (dispatch table (callOf m.task.frame) (sharedOf m.task) m.world),
        (dispatch table (callOf m.task.frame) (sharedOf m.task) m.world).2.2,
        m.calls ++ [callOf m.task.frame]⟩ := if_neg h

theorem getNextSignal_of_only (hsig : sig ∈ signals)
    (hp : ∀ j ∈ signals, t.pending.getLsbD j = decide (j = sig)) (hd : t.Deliverable sig) :
    t.getNextSignal = sig := by
  rw [getNextSignal_eq_iff hsig]
  refine ⟨hd, fun low hlow hlt hlowd => ?_⟩
  have hbit := hlowd.1
  rw [hp low hlow] at hbit
  exact ne_of_lt hlt (of_decide_eq_true hbit)

/-- Once the only signal is taken, none is left. -/
theorem idle_of_only (hp : ∀ j ∈ signals, t.pending.getLsbD j = decide (j = sig)) :
    ∀ j ∈ signals, (t.withFrame sig).pending.getLsbD j = false := by
  intro j hj
  show (t.pending &&& ~~~sigBit sig).getLsbD j = false
  rw [getLsbD_without, hp j hj]
  by_cases h : j = sig
  · simp [h]
  · simp [h]

theorem ne_zero_of_mem_signals (h : sig ∈ signals) : sig ≠ 0 := by
  have := mem_signals.1 h
  omega

section

variable (h : c.Signalled)

include h

/-- The whole trap, for a signal that arrives during the call. -/
theorem trapped_late (hlate : c.early = false) : c.trapped =
    { task := if userAccessOk c.task.frameAddr sigframeSize then c.atReturn.withFrame c.sig
        else c.atReturn.exitSignal c.sig
      world := c.effect.2.2
      calls := [c.call] } := by
  have hidle : ∀ j ∈ signals, c.task.pending.getLsbD j = false := by
    intro j hj
    rw [h.pending j hj, hlate]
    rfl
  have htaken : c.taken = c.atReturn := by
    unfold Scene.taken
    rw [hlate]
    rfl
  have honly : ∀ j ∈ signals, c.atReturn.pending.getLsbD j = decide (j = c.sig) := by
    intro j hj
    show (c.task.pending ||| c.arrivals).getLsbD j = _
    rw [BitVec.getLsbD_or, hidle j hj, h.arrivals j hj, hlate]
    rfl
  have hd := h.deliverable
  have hc := h.caught
  rw [htaken] at hd hc
  have hdeliver := deliverPending_of_caught (getNextSignal_of_only h.valid honly hd)
    (ne_zero_of_mem_signals h.valid) hc
  have hcall : syscall c.table ⟨enterCall c.arrivals c.task, c.world, []⟩ =
      ⟨withResult (enterCall c.arrivals c.task) c.effect, c.effect.2.2, [c.call]⟩ := by
    rw [syscall_of_ne h.ordinary]
    rw [show (enterCall c.arrivals c.task).frame = c.task.frame.setPc (c.task.frame.pc + 4) by rfl,
      callOf_setPc]
    rfl
  unfold Scene.trapped
  rw [trapHandler_of_alive (deliverPending_of_idle hidle) h.alive, hcall]
  exact congrArg (fun t => (⟨t, c.effect.2.2, [c.call]⟩ : Machine W)) hdeliver

/-- A signal that is pending already makes its handler start at the second instruction. -/
theorem trapped_early (hearly : c.early = true) : c.trapped.task.exited ≠ none ∨
      c.trapped.task.frame.pc = (c.taken.actions c.sig).handler + 4 := by
  have honly : ∀ j ∈ signals, c.task.pending.getLsbD j = decide (j = c.sig) := by
    intro j hj
    rw [h.pending j hj, hearly]
    rfl
  have htaken : c.taken = c.task := by
    unfold Scene.taken
    rw [hearly]
    rfl
  have hd := h.deliverable
  have hc := h.caught
  rw [htaken] at hd hc ⊢
  have hdeliver := deliverPending_of_caught (getNextSignal_of_only h.valid honly hd)
    (ne_zero_of_mem_signals h.valid) hc
  unfold Scene.trapped
  cases hok : userAccessOk c.task.frameAddr sigframeSize with
  | false =>
    left
    rw [hok] at hdeliver
    unfold trapHandler
    rw [hdeliver]
    exact Option.some_ne_none _
  | true =>
    right
    rw [hok] at hdeliver
    have hcall : (enterCall c.arrivals (c.task.withFrame c.sig)).frame.a7 ≠ sysSigreturn :=
      h.ordinary
    rw [trapHandler_of_alive (m := ⟨c.task, c.world, []⟩) (hdeliver.trans (if_pos rfl)) h.alive,
      syscall_of_ne hcall]
    unfold leaveTrap
    rw [deliverPending_of_idle]
    · rfl
    intro j hj
    show ((c.task.withFrame c.sig).pending ||| c.arrivals).getLsbD j = false
    rw [BitVec.getLsbD_or, idle_of_only honly j hj, h.arrivals j hj, hearly]
    rfl

/-- Nothing is left of the signal when its handler runs. -/
theorem idle_late (hlate : c.early = false) :
    ∀ j ∈ signals, (c.atReturn.withFrame c.sig).pending.getLsbD j = false := by
  apply idle_of_only
  intro j hj
  show (c.task.pending ||| c.arrivals).getLsbD j = _
  rw [BitVec.getLsbD_or, h.pending j hj, h.arrivals j hj, hlate]
  rfl

theorem idle_enterCall (hlate : c.early = false) : ∀ j ∈ signals,
    (enterCall 0 (c.atReturn.withFrame c.sig)).pending.getLsbD j = false := by
  intro j hj
  show ((c.atReturn.withFrame c.sig).pending ||| 0).getLsbD j = false
  rw [BitVec.getLsbD_or, idle_late h hlate j hj]
  exact BitVec.getLsbD_zero

end

/-- The undisturbed call changes no register but `a0`. -/
theorem atReturn_reg (hi : i.val < 32) (hne : i ≠ 10) : c.atReturn.frame i = c.task.frame i :=
  calc c.atReturn.frame i
      = (withResult (enterCall c.arrivals c.task) c.effect).frame i := prepareToRetToUser_reg _ _ hi
    _ = (enterCall c.arrivals c.task).frame i := setA0_reg _ _ hne
    _ = c.task.frame i := setPc_reg _ _ hi

/-- The trap of `sigreturn`. -/
theorem handlerDone_late (h : c.Signalled) (hlate : c.early = false)
    (hok : userAccessOk c.task.frameAddr sigframeSize = true) (f : TrapFrame) (mem : UserMem)
    (csr : BitVec 64) (hf : f.a7 = sysSigreturn) : c.handlerDone f mem csr =
      ⟨leaveTrap csr (sigreturnTask
        (enterCall 0 (SigOp.run (c.atReturn.withFrame c.sig) (.user f mem)))),
        c.effect.2.2, [c.call]⟩ := by
  have hidle : ∀ j ∈ signals,
      (SigOp.run (c.atReturn.withFrame c.sig) (.user f mem)).pending.getLsbD j = false :=
    idle_late h hlate
  have hcall : syscall c.table
      ⟨enterCall 0 (SigOp.run (c.atReturn.withFrame c.sig) (.user f mem)), c.effect.2.2, [c.call]⟩ =
      ⟨sigreturnTask (enterCall 0 (SigOp.run (c.atReturn.withFrame c.sig) (.user f mem))),
        c.effect.2.2, [c.call]⟩ := if_pos hf
  unfold Scene.handlerDone
  rw [trapped_late h hlate, hok, if_pos rfl,
    trapHandler_of_alive (deliverPending_of_idle hidle) h.alive, hcall]

/-- What the program finds after a handler that has left its frame alone. -/
theorem resumed_late (h : c.Signalled) (hlate : c.early = false)
    (hok : userAccessOk c.task.frameAddr sigframeSize = true) (haddr : c.task.frameAddr ≠ 0)
    {f : TrapFrame} {mem : UserMem} (csr : BitVec 64) (hf : f.a7 = sysSigreturn)
    (hmem : ∀ i < 40, mem (c.task.frameAddr + BitVec.ofNat 64 (8 * i)) =
      c.trapped.task.mem (c.task.frameAddr + BitVec.ofNat 64 (8 * i))) :
    c.Resumed (c.handlerDone f mem csr) := by
  have hframe : FrameAt mem c.task.frameAddr c.atReturn.frame c.atReturn.blocked := by
    rw [trapped_late h hlate, hok, if_pos rfl] at hmem
    have hsaved : FrameAt (c.atReturn.frameMem c.sig) c.task.frameAddr c.atReturn.frame
        c.atReturn.blocked := frameAt_frameMem c.atReturn c.sig
    exact hsaved.congr hmem
  have hret := sigreturn_of_frameAt
    (t := enterCall 0 (SigOp.run (c.atReturn.withFrame c.sig) (.user f mem))) haddr hok hframe
  rw [handlerDone_late h hlate hok f mem csr hf]
  unfold sigreturnTask leaveTrap
  rw [hret]
  rw [deliverPending_of_idle (by exact idle_enterCall h hlate)]
  refine ⟨h.alive, rfl, rfl, rfl, fun i hi hne => ?_⟩
  calc prepareToRetToUser csr (c.atReturn.frame.setA0 c.atReturn.frame.a0) i
      = c.atReturn.frame.setA0 c.atReturn.frame.a0 i := prepareToRetToUser_reg _ _ hi
    _ = c.atReturn.frame i := setA0_reg _ _ hne
    _ = c.task.frame i := atReturn_reg hi hne

end Proofs

/-- A handler is transparent to the program exactly when its signal comes during the system call and
not before, and its frame is at a good address of user space. -/
theorem delivery_transparent {W : Type} {c : Scene W} (h : c.Signalled) :
    c.Transparent ↔ c.early = false ∧ userAccessOk c.task.frameAddr sigframeSize = true ∧
      c.task.frameAddr ≠ 0 := by
  constructor
  · intro ht
    have hlate : c.early = false := by
      cases hearly : c.early with
      | false => rfl
      | true =>
        -- the handler would have to start four bytes before it starts
        rcases trapped_early h hearly with hgone | hpc
        · exact absurd ht.alive hgone
        rw [ht.handler] at hpc
        have hnat := congrArg BitVec.toNat hpc
        rw [BitVec.toNat_add] at hnat
        have h4 : (4 : BitVec 64).toNat = 4 := rfl
        omega
    have hok : userAccessOk c.task.frameAddr sigframeSize = true := by
      cases hok : userAccessOk c.task.frameAddr sigframeSize with
      | true => rfl
      | false =>
        have halive := ht.alive
        rw [trapped_late h hlate, hok] at halive
        cases halive
    refine ⟨hlate, hok, fun haddr => ?_⟩
    -- a handler that calls from elsewhere: it goes on after its own call
    let f : TrapFrame := fun i => if i = 17 then sysSigreturn else c.task.frame.pc + 1
    have hres := (ht.back f c.trapped.task.mem 0 rfl fun _ _ => rfl).pc
    rw [handlerDone_late h hlate hok f _ 0 rfl] at hres
    have hret : (enterCall 0 (SigOp.run (c.atReturn.withFrame c.sig)
        (.user f c.trapped.task.mem))).sigreturn = .error .einval := if_pos haddr
    unfold sigreturnTask leaveTrap at hres
    rw [hret] at hres
    rw [deliverPending_of_idle (by exact idle_enterCall h hlate)] at hres
    have hpc : c.task.frame.pc + 1 + 4 = c.task.frame.pc + 4 := hres
    have hnat := congrArg BitVec.toNat hpc
    rw [BitVec.toNat_add, BitVec.toNat_add, BitVec.toNat_add] at hnat
    have h1 : (1 : BitVec 64).toNat = 1 := rfl
    omega
  · rintro ⟨hlate, hok, haddr⟩
    have htrap := trapped_late h hlate
    rw [hok, if_pos rfl] at htrap
    have htaken : c.taken = c.atReturn := by
      unfold Scene.taken
      rw [hlate]
      rfl
    refine ⟨?_, ?_, ?_, fun f mem csr hf hmem => resumed_late h hlate hok haddr csr hf hmem⟩
    · rw [htrap]
      exact h.alive
    · rw [htrap, htaken]
      rfl
    · rw [htrap]
      rfl

section Examples

/-- A call `write(1, 0x2000, 5)` at `0x400` by a task that catches the signal `10` at `0x1000`. The
call returns its third argument. -/
def writeScene (early : Bool) : Scene Unit :=
  let frame : TrapFrame := fun i =>
    if i.val = 33 then 0x400 else if i.val = 17 then 1 else if i.val = 10 then 1
    else if i.val = 11 then 0x2000 else if i.val = 12 then 5 else 0x10000
  { table := fun num => if num = 1 then some fun args sh w => (args 2, sh, w) else none
    task :=
      { newTask frame fun _ => 0 with
        pending := if early then sigBit 10 else 0
        actions := fun _ => ⟨0x1000, 0, 0⟩ }
    world := ()
    arrivals := if early then 0 else sigBit 10
    csr := 0
    sig := 10
    early := early }

theorem writeScene_signalled (early : Bool) : (writeScene early).Signalled := by
  cases early <;>
  exact ⟨rfl, by decide +kernel, by decide, by decide +kernel, by decide +kernel,
    ⟨by decide +kernel, by decide +kernel, nofun⟩, by decide, by decide, by decide⟩

theorem delivery_transparent_write : (writeScene false).Transparent :=
  (delivery_transparent (writeScene_signalled false)).2
    ⟨rfl, by decide +kernel, by decide +kernel⟩

/-- With the signal pending, the call is `write(10, 0x2000, 5)`, the handler starts at `0x1004` with
its result, and after `sigreturn` the program makes its call, which is then the second. -/
theorem delivery_not_transparent : (writeScene true).Signalled ∧ ¬ (writeScene true).Transparent ∧
    (writeScene true).trapped.task.frame.pc = 0x1004 ∧ (writeScene true).trapped.task.frame.a0 = 5 ∧
    ((writeScene true).trapped.calls.map fun c => c.args 0) = [10] ∧
    ((writeScene true).handlerDone (fun _ => sysSigreturn) (writeScene true).trapped.task.mem
      0).task.frame.pc = 0x400 := by
  refine ⟨writeScene_signalled true, fun h => ?_, by decide +kernel, by decide +kernel,
    by decide +kernel, by decide +kernel⟩
  have hpc : (writeScene true).trapped.task.frame.pc = 0x1000 := h.handler
  revert hpc
  decide +kernel

end Examples

end BrkKernel.Trap
