import BrkKernel.Kern.Wait
import BrkKernel.Kern.SchedRun

/-!
# Waiting, in the scheduler

`Kern.Wait` says what `task_sleep`, `task_exit`, `task_sched_resume` and `task_wake_spec` do to a
parent and its children; `Kern.Sched` has their code, for every task. On the task that a section is
about the two agree, in every state the scheduler can reach (`Sched.inv_of_reachable`).
-/

set_option autoImplicit false

namespace BrkKernel.Kern

open Sched (Conds Sys)

def TaskState.inSched : TaskState → Sched.TaskState
  | .running => .running
  | .sleeping => .sleeping
  | .zombie => .zombie

theorem inSched_inj {a b : TaskState} : a.inSched = b.inSched ↔ a = b := by
  cases a <;> cases b <;> simp [TaskState.inSched]

/-- The task `p` of the scheduler is the parent. -/
structure ShowsParent (s : Sys) (p : Nat) (w : WaitSys) : Prop where
  state : (s.task p).state = w.parentState.inSched
  lock : (s.task p).lock.isSome = w.parentLocked
  queued : p ∈ s.sleepQueue ↔ w.queued = true

/-- The task `c` of the scheduler is the child `t`. -/
structure ShowsChild (s : Sys) (c : Nat) (t : Child) : Prop where
  state : (s.task c).state = t.state.inSched
  onCpu : (s.task c).oncpu.isSome = t.onCpu
  lock : (s.task c).lock.isSome = t.locked

variable {C : Conds} {s s' : Sys} {p c i k status : Nat} {w : WaitSys}

/-- `task_sleep` of the parent up to `task_sched`, from the end of its loop over the children. -/
theorem ShowsParent.sleep (hinv : Sched.Inv C s) (hpc : w.pc = .sleepy)
    (htest : (s.task p).pc = .test k) (hcond : s.cond k = false)
    (hs : (s.advance C i p).bind (·.advance C i p) = some s') :
    ∃ w' ∈ parentStep w, ShowsParent s' p w' := by
  have hheld : (s.holder (C.lock k)).isSome := by
    rw [hinv.core.holder_of_task (by rw [htest]; rfl)]
    rfl
  simp only [Sys.advance, htest, hcond, Bool.false_eq_true, if_false, Sched.assert_of_true hheld,
    Option.bind_eq_some_iff, Option.ite_none_right_eq_some, Option.some.injEq] at hs
  obtain ⟨mid, ⟨-, rfl⟩, hs⟩ := hs
  simp only [Sys.setTask, Function.update_self, Option.ite_none_right_eq_some,
    Option.some.injEq] at hs
  obtain ⟨-, rfl⟩ := hs
  refine ⟨_, by simp only [parentStep, hpc]; rfl, ?_⟩
  constructor <;> simp [TaskState.inSched]

/-- `task_sched_resume` in the next task lets go of the parent. -/
theorem ShowsParent.resume (h : ShowsParent s p w) (hpc : w.pc = .switching) (next : Option Nat) :
    ∃ w' ∈ parentStep w, ShowsParent (s.taskSchedResume i next (some p)) p w' := by
  refine ⟨_, by simp only [parentStep, hpc]; rfl, ?_⟩
  constructor <;> simp [Sys.taskSchedResume, Sys.setCpu, Sys.setTask, h.state, h.queued]

/-- A turn of `task_wake_spec`. It stays in its loop where the caller has to wait. -/
theorem ShowsParent.wakeSpec (hinv : Sched.Inv C s) (h : ShowsParent s p w) (x : Nat) :
    match taskWakeSpec w with
    | none => s.wakeSeek x p = s
    | some w' => ShowsParent (s.wakeSeek x p) p w' := by
  have hsleep : (s.task p).state = .sleeping ↔ w.parentState = .sleeping := by
    rw [h.state]
    exact inSched_inj (b := .sleeping)
  have hlock : (s.task p).lock ≠ none ↔ w.parentLocked = true := by
    rw [← h.lock, Option.isSome_iff_ne_none]
  simp only [taskWakeSpec, Sys.wakeSeek, h.queued, hsleep, hlock, ne_eq, ← not_and_or, ite_not]
  by_cases hasleep : w.queued = true ∧ w.parentState = .sleeping
  · simp only [if_pos hasleep]
    by_cases hl : w.parentLocked = true
    · simp only [if_pos hl]
    · simp only [if_neg hl]
      constructor <;> simp [Sys.wakeUp, Sys.setTask, Sys.setWaker, TaskState.inSched, h.lock,
        (Sched.sleepQueue_nodup hinv.placed).not_mem_erase]
  · simp only [if_neg hasleep]
    exact ⟨h.state, h.lock, h.queued⟩

/-- A child in `task_exit` becomes a zombie under its lock and calls `task_sched`. -/
theorem ShowsChild.exit (h : ShowsChild s c (w.child c)) (hc : c ∈ w.kids)
    (hpc : (w.child c).pc = .exiting status) (hon : (s.task c).oncpu = some i)
    (hs : s.runTask C i c .exit = some s') :
    ∃ w' ∈ childStep w c, ShowsChild s' c (w'.child c) := by
  simp only [Sys.runTask, Option.ite_none_right_eq_some, Option.some.injEq] at hs
  obtain ⟨⟨-, hlock⟩, rfl⟩ := hs
  have hfree : (w.child c).locked = false := by rw [← h.lock, hlock]; rfl
  refine ⟨_, by simp only [childStep, hc, hpc, hfree]; rfl, ?_⟩
  constructor <;> simp [Sys.setCpu, Sys.setTask, WaitSys.setChild, TaskState.inSched, hon]

/-- `task_sched_resume` in the next task lets go of the zombie. -/
theorem ShowsChild.resume (h : ShowsChild s c (w.child c)) (hc : c ∈ w.kids)
    (hpc : (w.child c).pc = .switching) (next : Option Nat) :
    ∃ w' ∈ childStep w c, ShowsChild (s.taskSchedResume i next (some c)) c (w'.child c) := by
  refine ⟨_, by simp only [childStep, hc, hpc]; rfl, ?_⟩
  constructor <;> simp [Sys.taskSchedResume, Sys.setCpu, Sys.setTask, WaitSys.setChild, h.state]

/-- The parent waits for the lock of a child, and under it reads from the scheduler's task whether
the child is ready. -/
theorem ShowsChild.look {rest : List Nat} {found : Bool} (h : ShowsChild s c (w.child c))
    (hpc : w.pc = .scan (c :: rest) found) (hout : s.waker p = .out) :
    (s.runWaker C p (.peek c)).isSome = (parentStep w).isSome ∧
      (Ready w.pid (w.child c) ↔ (s.task c).state = .zombie ∧ (s.task c).oncpu = none ∧
        Matches w.pid (w.child c)) := by
  obtain ⟨hstate, honCpu, hlock⟩ := h
  refine ⟨?_, ?_⟩
  · simp only [Sys.runWaker, hout, parentStep, hpc, ← hlock]
    cases (s.task c).lock <;> rfl
  · rw [Ready, ← honCpu, Option.isSome_eq_false_iff, Option.isNone_iff_eq_none, hstate]
    exact and_congr_left' inSched_inj.symm

end BrkKernel.Kern
