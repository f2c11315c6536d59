import BrkKernel.Kern.SignalRun

/-!
# The frame of a signal handler

Where the kernel stores when it delivers a signal or answers a signal call, and what `sigreturn`
gives back.

`signal_stores_user_only`: the stores stay in user space exactly when the stack pointer is at
least the size of a frame, and the pointers given to `sigaction` and `sigprocmask` are null or
point to user space. Below the size of a frame the subtraction wraps and so does the sum in
`user_access_ok`; the two pointers are not checked at all.

`sigreturn_restores`: `sigreturn` restores what the latest delivery has saved, in runs in which
handlers do not nest, no handler forks and no frame lies at the address `0`. The kernel keeps one
frame address only.
-/

set_option autoImplicit false

namespace BrkKernel.Signal

open Lib SigOp

/-! ## Addresses -/

section Addr

theorem and_not_fifteen (x : BitVec 64) : x &&& ~~~(0xF : BitVec 64) = (x >>> 4) <<< 4 := by
  have hbit : ∀ i : Fin 64, (~~~(0xF : BitVec 64)).getLsbD i.val = decide (4 ≤ i.val) := by decide
  apply BitVec.eq_of_getLsbD_eq
  intro i hi
  rw [BitVec.getLsbD_and, hbit ⟨i, hi⟩, BitVec.getLsbD_shiftLeft, BitVec.getLsbD_ushiftRight,
    decide_eq_true hi, Bool.true_and]
  by_cases h4 : i < 4
  · rw [decide_eq_true h4, decide_eq_false (Nat.not_le_of_lt h4), Bool.and_false, Bool.not_true,
      Bool.false_and]
  · rw [decide_eq_false h4, decide_eq_true (Nat.le_of_not_lt h4), Bool.and_true, Bool.not_false,
      Bool.true_and, Nat.add_sub_cancel' (Nat.le_of_not_lt h4)]

theorem toNat_and_not_fifteen (x : BitVec 64) :
    (x &&& ~~~(0xF : BitVec 64)).toNat = x.toNat / 16 * 16 := by
  have hlt := x.isLt
  rw [and_not_fifteen, BitVec.toNat_shiftLeft, BitVec.toNat_ushiftRight, Nat.shiftLeft_eq,
    Nat.shiftRight_eq_div_pow]
  exact Nat.mod_eq_of_lt (lt_of_le_of_lt (Nat.div_mul_le_self _ _) hlt)

/-- The address of the frame, by the stack pointer. Below the size of a frame it wraps. -/
theorem frameAddr_toNat (t : SigTask) : t.frameAddr.toNat =
    if sigframeSize ≤ t.frame.sp.toNat then (t.frame.sp.toNat - sigframeSize) / 16 * 16
    else (2 ^ 64 + t.frame.sp.toNat - sigframeSize) / 16 * 16 := by
  have hsize : sigframeSize = 320 := rfl
  unfold SigTask.frameAddr
  rw [toNat_and_not_fifteen, BitVec.toNat_sub, BitVec.toNat_ofNat, hsize]
  split
  · omega
  · omega

end Addr

/-! ## Stores -/

/-- All of these stores are to user space. -/
def UserOnly (l : List Store) : Prop :=
  ∀ s ∈ l, ∀ k < s.len, (s.addr + BitVec.ofNat 64 k).toNat < userSpaceSizeMax

/-- The operations that store through addresses of the user. -/
inductive StoreOp where
  | setup (t : SigTask)
  | sigaction (t : SigTask) (sig : Int) (act : Option SigAction) (oact : BitVec 64)
  | sigprocmask (t : SigTask) (how : Int) (set : Option (BitVec 64)) (oldset : BitVec 64)

def StoreOp.stores : StoreOp → List Store
  | .setup t => t.setupStores
  | .sigaction t sig act oact => (t.sigaction sig act oact).2
  | .sigprocmask t how set oldset => (t.sigprocmask how set oldset).2

/-- A null pointer, or one to `len` bytes of user space. -/
def UserPtr (p : BitVec 64) (len : Nat) : Prop := p = 0 ∨ p.toNat + len ≤ userSpaceSizeMax

/-- The condition on what the user passes. A call of `sigaction` that is refused stores nothing. -/
def StoreOp.Fits : StoreOp → Prop
  | .setup t => sigframeSize ≤ t.frame.sp.toNat
  | .sigaction _ sig _ oact =>
    sigValid sig = false ∨ sig = sigkill ∨ sig = sigstop ∨ UserPtr oact 24
  | .sigprocmask _ _ _ oldset => UserPtr oldset 8

section Stores

theorem userOnly_nil : UserOnly [] := nofun

theorem userOnly_cons {p : BitVec 64} {n : Nat} {l : List Store} : UserOnly (⟨p, n⟩ :: l) ↔
    (∀ k < n, (p + BitVec.ofNat 64 k).toNat < userSpaceSizeMax) ∧ UserOnly l := by
  unfold UserOnly
  rw [List.forall_mem_cons]

/-- The range of one store: if the sum wrapped, the first address would be outside. -/
theorem range_in_user {p : BitVec 64} {n : Nat} (hpos : 0 < n) (hlen : n ≤ 4096) :
    (∀ k < n, (p + BitVec.ofNat 64 k).toNat < userSpaceSizeMax) ↔
      p.toNat + n ≤ userSpaceSizeMax := by
  have hmax : userSpaceSizeMax = 274877902848 := by decide
  have hadd : ∀ k < n, (p + BitVec.ofNat 64 k).toNat = (p.toNat + k) % 2 ^ 64 := by
    intro k hk
    rw [BitVec.toNat_add, BitVec.toNat_ofNat]
    omega
  constructor
  · intro h
    have hfirst := h 0 hpos
    have hlast := h (n - 1) (by omega)
    rw [hadd _ hpos] at hfirst
    rw [hadd _ (by omega)] at hlast
    omega
  · intro h k hk
    rw [hadd k hk]
    omega

theorem userOnly_ptr {p : BitVec 64} {len : Nat} (hpos : 0 < len) (hlen : len ≤ 4096) :
    UserOnly (if p = 0 then [] else [⟨p, len⟩]) ↔ UserPtr p len := by
  split
  · next hp => exact ⟨fun _ => .inl hp, fun _ => userOnly_nil⟩
  · next hp =>
    rw [userOnly_cons, range_in_user hpos hlen]
    exact ⟨fun h => .inr h.1, fun h => ⟨h.resolve_left hp, userOnly_nil⟩⟩

theorem setup_userOnly (t : SigTask) :
    UserOnly t.setupStores ↔ sigframeSize ≤ t.frame.sp.toNat := by
  have hmax : userSpaceSizeMax = 274877902848 := by decide
  have hsize : sigframeSize = 320 := rfl
  have haddr := frameAddr_toNat t
  have hsum : (t.frameAddr + BitVec.ofNat 64 sigframeSize).toNat =
      (t.frameAddr.toNat + 320) % 2 ^ 64 := by
    rfl
  unfold SigTask.setupStores
  by_cases hsp : sigframeSize ≤ t.frame.sp.toNat
  · rw [if_pos hsp] at haddr
    refine ⟨fun _ => hsp, fun _ => ?_⟩
    cases hok : userAccessOk t.frameAddr sigframeSize with
    | false => exact userOnly_nil
    | true =>
      -- nothing wraps: the end of the frame is at most the stack pointer
      have hend : t.frameAddr.toNat + 320 ≤ userSpaceSizeMax := by
        have hcheck := of_decide_eq_true hok
        omega
      have h304 : (t.frameAddr + 304).toNat = t.frameAddr.toNat + 304 := by
        exact Nat.mod_eq_of_lt (by show t.frameAddr.toNat + 304 < _; omega)
      have h312 : (t.frameAddr + 312).toNat = t.frameAddr.toNat + 312 := by
        exact Nat.mod_eq_of_lt (by show t.frameAddr.toNat + 312 < _; omega)
      rw [if_pos rfl, userOnly_cons, userOnly_cons, userOnly_cons]
      refine ⟨?_, ?_, ?_, userOnly_nil⟩
      · exact (range_in_user (by decide) (by decide)).2 (by omega)
      · exact (range_in_user (by decide) (by decide)).2 (by omega)
      · exact (range_in_user (by decide) (by decide)).2 (by omega)
  · rw [if_neg hsp] at haddr
    -- the check passes, since its sum wraps as well
    have hok : userAccessOk t.frameAddr sigframeSize = true := by
      apply decide_eq_true
      omega
    refine ⟨fun h => ?_, fun h => absurd h hsp⟩
    rw [hok, if_pos rfl, userOnly_cons] at h
    have hfirst := (range_in_user (by decide) (by decide)).1 h.1
    omega

end Stores

/-- The kernel stores to user space only, exactly when the stack pointer has room for a frame below
it and the pointers of the calls are null or in user space. -/
theorem signal_stores_user_only (op : StoreOp) : UserOnly op.stores ↔ op.Fits := by
  cases op with
  | setup t => exact setup_userOnly t
  | sigaction t sig act oact =>
    unfold StoreOp.stores StoreOp.Fits
    dsimp only
    unfold SigTask.sigaction
    rw [← Bool.not_eq_true', ← or_assoc (a := sig = sigkill)]
    split
    next hv => exact iff_of_true userOnly_nil (.inl hv)
    split
    next hsig => exact iff_of_true userOnly_nil (.inr (.inl hsig))
    next hv hsig => rw [or_iff_right hv, or_iff_right hsig, userOnly_ptr (by decide) (by decide)]
  | sigprocmask t how set oldset =>
    have hstores : (t.sigprocmask how set oldset).2 = if oldset = 0 then [] else [⟨oldset, 8⟩] := by
      unfold SigTask.sigprocmask
      dsimp only
      split
      · rfl
      split
      · rfl
      · rfl
    unfold StoreOp.stores StoreOp.Fits
    dsimp only
    rw [hstores]
    exact userOnly_ptr (by decide) (by decide)

/-- A stack pointer of `16` puts the frame at the top of the address space, and `sigaction` stores
to the address `0xffffffc000000000` when it is asked to. -/
theorem signal_stores_outside :
    ¬ UserOnly (StoreOp.setup (newTask (fun _ => 16) fun _ => 0)).stores ∧
      (newTask (fun _ => 16) fun _ => 0).setupStores.head? = some ⟨0xfffffffffffffed0, 304⟩ ∧
      (StoreOp.sigaction (newTask (fun _ => 16) fun _ => 0) 10 none 0xffffffc000000000).stores =
        [⟨0xffffffc000000000, 24⟩] := by
  refine ⟨fun h => ?_, by decide +kernel, by decide +kernel⟩
  exact absurd ((setup_userOnly _).1 h) (by decide)

/-! ## The frame in memory -/

section Frame

variable {t : SigTask} {f : TrapFrame}

/-- Memory holds the frame at `a` with these registers and this blocked set. -/
def FrameAt (mem : UserMem) (a : BitVec 64) (f : TrapFrame) (b : BitVec 64) : Prop :=
  (∀ i : Fin 38, mem (a + BitVec.ofNat 64 (8 * i.val)) = f i) ∧ mem (a + 304) = b

theorem frameMem_word (t : SigTask) (sig : Nat) {i : Nat} (hi : i < 40) :
    t.frameMem sig (t.frameAddr + BitVec.ofNat 64 (8 * i)) = t.sigframeWord sig i := by
  have hoff : (t.frameAddr + BitVec.ofNat 64 (8 * i) - t.frameAddr).toNat = 8 * i := by
    rw [BitVec.add_comm, BitVec.add_sub_cancel, BitVec.toNat_ofNat]
    omega
  have hsize : sigframeSize = 320 := rfl
  unfold SigTask.frameMem
  rw [hoff, if_pos (by omega), Nat.mul_div_cancel_left i (by decide)]

theorem frameAt_frameMem (t : SigTask) (sig : Nat) :
    FrameAt (t.frameMem sig) t.frameAddr t.frame t.blocked := by
  refine ⟨fun i => ?_, ?_⟩
  · rw [frameMem_word t sig (by omega)]
    unfold SigTask.sigframeWord
    rw [dif_pos i.isLt]
  · exact frameMem_word t sig (i := 38) (by decide)

theorem FrameAt.congr {mem mem' : UserMem} {a b : BitVec 64} (h : FrameAt mem a f b)
    (hkeep : ∀ i < 40, mem' (a + BitVec.ofNat 64 (8 * i)) = mem (a + BitVec.ofNat 64 (8 * i))) :
    FrameAt mem' a f b :=
  ⟨fun i => (hkeep i.val (by omega)).trans (h.1 i), (hkeep 38 (by decide)).trans h.2⟩

theorem sigreturn_of_frameAt {b : BitVec 64} (hne : t.sigframeSp ≠ 0)
    (hok : userAccessOk t.sigframeSp sigframeSize = true) (h : FrameAt t.mem t.sigframeSp f b) :
    t.sigreturn = .ok { t with frame := f, blocked := b, inHandler := false, sigframeSp := 0 } := by
  unfold SigTask.sigreturn
  rw [if_neg hne, hok, if_neg (by decide), h.2, funext h.1]

end Frame

/-! ## Handlers that have not returned -/

/-- A task with the contexts that its deliveries have saved and that have not been returned to, the
latest first: where the frame is, the registers and the blocked set. -/
structure NestSys where
  task : SigTask
  saved : List (BitVec 64 × TrapFrame × BitVec 64)

/-- User code leaves the frames alone. -/
def KeepsFrames (s : NestSys) (mem : UserMem) : Prop :=
  ∀ a f b, (a, f, b) ∈ s.saved → ∀ i < 40, mem (a + BitVec.ofNat 64 (8 * i)) =
    s.task.mem (a + BitVec.ofNat 64 (8 * i))

/-- The delivery enters a handler. -/
def SigTask.Enters (t : SigTask) : Prop :=
  ∃ p sig, t.deliverPending = SigTask.withFrame { t with pending := p } sig

/-- An operation with its effect on the saved contexts. A child has those of its parent. -/
inductive NestStep (s : NestSys) : SigOp → NestSys → Prop
  | user (frame : TrapFrame) (mem : UserMem) (hkeep : KeepsFrames s mem) :
      NestStep s (.user frame mem) ⟨SigOp.run s.task (.user frame mem), s.saved⟩
  | send (sig : Nat) : NestStep s (.send sig) ⟨SigOp.run s.task (.send sig), s.saved⟩
  | sigaction (sig : Int) (act : Option SigAction) (oact : BitVec 64) :
      NestStep s (.sigaction sig act oact) ⟨SigOp.run s.task (.sigaction sig act oact), s.saved⟩
  | sigprocmask (how : Int) (set : Option (BitVec 64)) (oldset : BitVec 64) :
      NestStep s (.sigprocmask how set oldset)
        ⟨SigOp.run s.task (.sigprocmask how set oldset), s.saved⟩
  | enter (henter : s.task.Enters) :
      NestStep s .deliver
        ⟨s.task.deliverPending, (s.task.frameAddr, s.task.frame, s.task.blocked) :: s.saved⟩
  | pass (p : BitVec 64) (hpass : s.task.deliverPending = { s.task with pending := p }) :
      NestStep s .deliver ⟨s.task.deliverPending, s.saved⟩
  | leave {t : SigTask} (hok : s.task.sigreturn = .ok t) :
      NestStep s .sigreturn ⟨t, s.saved.tail⟩
  | refused {e : Errno} (herr : s.task.sigreturn = .error e) : NestStep s .sigreturn s
  | fork : NestStep s .fork ⟨SigOp.run s.task .fork, s.saved⟩

/-- Handlers do not nest, no handler forks, and no frame lies at the address `0`. -/
def SigOp.Plain (s : NestSys) : SigOp → Prop
  | .deliver => s.task.Enters → s.saved = [] ∧ s.task.frameAddr ≠ 0
  | .fork => s.saved = []
  | _ => True

inductive PlainStep (s s' : NestSys) : Prop
  | mk {op : SigOp} (halive : s.task.exited = none) (hstep : NestStep s op s') (hplain : op.Plain s)

/-- A call of `sigreturn` restores the context saved last, if there is one. -/
def SigreturnExact (s : NestSys) : Prop :=
  ∀ a f b rest, s.saved = (a, f, b) :: rest →
    ∃ t, s.task.sigreturn = .ok t ∧ t.frame = f ∧ t.blocked = b

/-- At most one context is saved, and the kernel knows where it is. -/
inductive NestInv (s : NestSys) : Prop
  | none (hsaved : s.saved = []) (hsp : s.task.sigframeSp = 0)
  | one {f : TrapFrame} {b : BitVec 64} (hsaved : s.saved = [(s.task.sigframeSp, f, b)])
      (hsp : s.task.sigframeSp ≠ 0)
      (hok : userAccessOk s.task.sigframeSp sigframeSize = true)
      (hmem : FrameAt s.task.mem s.task.sigframeSp f b)

section Nest

variable {s s' : NestSys}

/-- Operations that leave the frame address and the saved contexts. -/
theorem NestInv.move (h : NestInv s) {t : SigTask} (hsp : t.sigframeSp = s.task.sigframeSp)
    (hmem : KeepsFrames s t.mem) : NestInv ⟨t, s.saved⟩ := by
  cases h with
  | none hsaved h0 => exact .none hsaved (hsp.trans h0)
  | @one f b hsaved hne hok hframe =>
    have hwords := hmem s.task.sigframeSp f b (by rw [hsaved]; exact List.mem_singleton.2 rfl)
    refine .one (f := f) (b := b) ?_ ?_ ?_ ?_
    · rw [hsp]
      exact hsaved
    · rw [hsp]
      exact hne
    · rw [hsp]
      exact hok
    · rw [hsp]
      exact hframe.congr hwords

theorem keepsFrames_refl (s : NestSys) : KeepsFrames s s.task.mem := fun _ _ _ _ _ _ => rfl

theorem NestInv.send (h : NestInv s) (sig : Nat) : NestInv ⟨run s.task (.send sig), s.saved⟩ := by
  unfold run
  dsimp only
  split
  · exact h.move rfl (keepsFrames_refl s)
  · exact h

theorem NestInv.sigaction (h : NestInv s) (sig : Int) (act : Option SigAction) (oact : BitVec 64) :
    NestInv ⟨run s.task (.sigaction sig act oact), s.saved⟩ := by
  unfold run SigTask.sigaction
  dsimp only
  split
  · exact h
  split
  · exact h
  · cases act with
    | none => exact h
    | some a => exact h.move rfl (keepsFrames_refl s)

theorem NestInv.sigprocmask (h : NestInv s) (how : Int) (set : Option (BitVec 64))
    (oldset : BitVec 64) : NestInv ⟨run s.task (.sigprocmask how set oldset), s.saved⟩ := by
  unfold run SigTask.sigprocmask
  cases set with
  | none => exact h
  | some set =>
    dsimp only
    cases s.task.newBlocked how set with
    | none => exact h
    | some b => exact h.move rfl (keepsFrames_refl s)

/-- Entering a handler saves the context in the frame. -/
theorem NestInv.enter (hsaved : s.saved = []) (haddr : s.task.frameAddr ≠ 0)
    (hexit : s.task.exited = .none) (henter : s.task.Enters) :
    NestInv ⟨s.task.deliverPending,
      (s.task.frameAddr, s.task.frame, s.task.blocked) :: s.saved⟩ := by
  obtain ⟨p, sig, heq⟩ := henter
  have hok : userAccessOk s.task.frameAddr sigframeSize = true := by
    rcases deliverPending_cases s.task with hgone | ⟨q, hpass | ⟨-, -, hok, -⟩⟩
    · rw [heq] at hgone
      have hnone : s.task.exited.isSome = true := hgone
      rw [hexit] at hnone
      cases hnone
    · -- the stack pointer of the handler differs from the one before
      exfalso
      rw [heq] at hpass
      have hsp : s.task.frameAddr = s.task.frame.sp := by
        have hframe := congrArg (fun t : SigTask => t.frame.sp) hpass
        exact hframe
      have hnat := congrArg BitVec.toNat hsp
      rw [frameAddr_toNat] at hnat
      have hsize : sigframeSize = 320 := rfl
      split at hnat
      · omega
      · omega
    · exact hok
  rw [heq, hsaved]
  exact .one rfl haddr hok (frameAt_frameMem { s.task with pending := p } sig)

theorem NestInv.exact (h : NestInv s) : SigreturnExact s := by
  intro a f b rest hs
  cases h with
  | none hsaved h0 =>
    rw [hsaved] at hs
    cases hs
  | one hsaved hne hok hframe =>
    rw [hsaved] at hs
    cases hs
    exact ⟨_, sigreturn_of_frameAt hne hok hframe, rfl, rfl⟩

theorem NestInv.step (h : NestInv s) (hs : PlainStep s s') : NestInv s' := by
  obtain @⟨op, halive, hstep, hplain⟩ := hs
  cases hstep with
  | user frame mem hkeep => exact h.move rfl hkeep
  | send sig => exact h.send sig
  | sigaction sig act oact => exact h.sigaction sig act oact
  | sigprocmask how set oldset => exact h.sigprocmask how set oldset
  | enter henter =>
    obtain ⟨hsaved, haddr⟩ := hplain henter
    exact .enter hsaved haddr halive henter
  | pass p hpass =>
    rw [hpass]
    exact h.move rfl (keepsFrames_refl s)
  | @leave t hok =>
    cases h with
    | none hsaved h0 =>
      unfold SigTask.sigreturn at hok
      rw [if_pos h0] at hok
      cases hok
    | one hsaved hne hacc hframe =>
      rw [sigreturn_of_frameAt hne hacc hframe] at hok
      cases hok
      exact .none (by rw [hsaved]; rfl) rfl
  | refused herr => exact h
  | fork => exact .none hplain rfl

end Nest

/-- When no handler is interrupted by another, in every state `sigreturn` restores the registers and
the blocked set of the last delivery. -/
theorem sigreturn_restores {frame : TrapFrame} {mem : UserMem} {s : NestSys}
    (hrun : Run PlainStep ⟨newTask frame mem, []⟩ s) : SigreturnExact s := by
  have hinv : NestInv s := Run.invariant (fun s s' hs (h : NestInv s) => h.step hs) hrun
    (.none rfl rfl)
  exact hinv.exact

/-! ## Nested handlers -/

section Runs

/-- A task that catches the signal `10` with a handler at `0x1000`, which the signal may
interrupt. -/
def catchingSys : NestSys :=
  ⟨SigOp.run (newTask (fun _ => 0x10000) fun _ => 0)
    (.sigaction 10 (some ⟨0x1000, 0, saNodefer⟩) 0), []⟩

/-- The signal `10` is sent and its handler is entered. -/
def NestSys.interrupt (s : NestSys) : NestSys :=
  ⟨SigTask.withFrame (SigOp.run s.task (.send 10)) 10,
    (s.task.frameAddr, s.task.frame, s.task.blocked) :: s.saved⟩

/-- `sigreturn` leaves the handler entered last. -/
def NestSys.back (s : NestSys) : NestSys := ⟨s.task.after s.task.sigreturn, s.saved.tail⟩

/-- Any step. -/
inductive AnyStep (s s' : NestSys) : Prop
  | mk {op : SigOp} (halive : s.task.exited = none) (hstep : NestStep s op s')

theorem interrupt_deliver {s : NestSys} (hnext : (run s.task (.send 10)).getNextSignal = 10)
    (hc : (run s.task (.send 10)).Caught 10)
    (hok : userAccessOk s.task.frameAddr sigframeSize = true) :
    SigTask.Enters (run s.task (.send 10)) ∧
      NestStep ⟨run s.task (.send 10), s.saved⟩ .deliver s.interrupt := by
  have heq := (deliverPending_of_caught hnext (by decide) hc).trans (if_pos hok)
  have henter : SigTask.Enters (run s.task (.send 10)) :=
    ⟨(run s.task (.send 10)).pending, 10, heq⟩
  have hstep := NestStep.enter (s := ⟨run s.task (.send 10), s.saved⟩) henter
  rw [heq] at hstep
  exact ⟨henter, hstep⟩

theorem caught_ten {t : SigTask} (h : (t.actions 10).handler = 0x1000) : t.Caught 10 := by
  refine ⟨by decide, ?_, ?_⟩
  · rw [h]
    decide
  · rw [h]
    decide

theorem catchingSys_run : Run PlainStep ⟨newTask (fun _ => 0x10000) fun _ => 0, []⟩ catchingSys :=
  Relation.ReflTransGen.refl.tail (.mk rfl (.sigaction 10 _ 0) trivial)

theorem catchingSys_interrupt_run :
    Run PlainStep ⟨newTask (fun _ => 0x10000) fun _ => 0, []⟩ catchingSys.interrupt := by
  have hstep := interrupt_deliver (s := catchingSys) (by decide +kernel) (caught_ten rfl)
    (by decide +kernel)
  exact (catchingSys_run.tail (.mk rfl (.send 10) trivial)).tail
    (.mk rfl hstep.2 fun _ => ⟨rfl, by decide +kernel⟩)

theorem sigreturn_restores_first : SigreturnExact catchingSys.interrupt ∧
    catchingSys.interrupt.saved ≠ [] :=
  ⟨sigreturn_restores catchingSys_interrupt_run, List.cons_ne_nil _ _⟩

theorem catchingSys_interrupt_any :
    Run AnyStep ⟨newTask (fun _ => 0x10000) fun _ => 0, []⟩ catchingSys.interrupt := by
  refine Relation.ReflTransGen.mono ?_ _ _ catchingSys_interrupt_run
  rintro s s' ⟨halive, hstep, -⟩
  exact .mk halive hstep

/-- The handler is interrupted by the same signal, and the inner one returns. -/
theorem nested_run : Run AnyStep ⟨newTask (fun _ => 0x10000) fun _ => 0, []⟩
      catchingSys.interrupt.interrupt.back := by
  have hsecond := interrupt_deliver (s := catchingSys.interrupt) (by decide +kernel)
    (caught_ten rfl) (by decide +kernel)
  have hback : catchingSys.interrupt.interrupt.task.sigreturn = .ok
      catchingSys.interrupt.interrupt.back.task := by
    rfl
  exact ((catchingSys_interrupt_any.tail (.mk rfl (.send 10))).tail (.mk rfl hsecond.2)).tail
    (.mk rfl (.leave hback))

/-- After the inner handler has returned, the outer one cannot; nor can a child forked in a
handler. -/
theorem sigreturn_fails_nested :
    (∃ s, Run AnyStep ⟨newTask (fun _ => 0x10000) fun _ => 0, []⟩ s ∧ s.saved.length = 1 ∧
      s = catchingSys.interrupt.interrupt.back ∧ s.task.sigreturn = .error .einval) ∧
    (∃ s, Run AnyStep ⟨newTask (fun _ => 0x10000) fun _ => 0, []⟩ s ∧ s.saved.length = 1 ∧
      s.task = catchingSys.interrupt.task.forkChild ∧ s.task.sigreturn = .error .einval) := by
  refine ⟨⟨_, nested_run, rfl, rfl, ?_⟩,
    ⟨_, catchingSys_interrupt_any.tail (.mk rfl .fork), rfl, rfl, rfl⟩⟩
  have hsp : catchingSys.interrupt.interrupt.back.task.sigframeSp = 0 := by
    rfl
  exact if_pos hsp

end Runs

end BrkKernel.Signal
