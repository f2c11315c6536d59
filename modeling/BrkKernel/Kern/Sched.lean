import BrkKernel.Lib.Actors

/-!
# Sleep, wakeup and the scheduler

The model of `kern/sched.c` with any number of tasks, CPUs and wakers. A task runs `lock L; while
(!C) task_sleep(ch, L)` for the conditions it likes, yields and exits; every CPU runs `task_sched`;
a waker takes a condition's lock, makes the condition true and calls `task_wake_all`, or calls
`task_wake_spec` for one task, or looks at a task under its lock as `task_wait` does. One action of
`fire` is one section of the code between two lock operations. A spinlock that is taken is waited
for, so the action of its next user is not enabled; `task_wake_all` walks the sleep queue one entry
an action, and finds every task's lock as it is at that moment.

A failed `assert` and a `panic` stop the system (`panicked`).
-/

set_option autoImplicit false

namespace BrkKernel.Sched

open Function

/-- The conditions tasks sleep on: the channel and the spinlock of each. Two conditions may share
either. -/
structure Conds where
  chan : Nat → Nat
  lock : Nat → Nat

inductive TaskState where
  | new | running | sleeping | zombie
  deriving DecidableEq, Repr

/-- Where a task stands in its code. -/
inductive Pc where
  /-- not made yet -/
  | create
  /-- made by `task_create`, with `complete_task_switch` before it -/
  | start
  /-- outside of the scheduler, with no lock -/
  | user
  /-- at the head of the loop `while (!C)`, with the lock of the condition -/
  | test (k : Nat)
  /-- behind the loop, with the lock of the condition -/
  | inside (k : Nat)
  /-- in `task_sleep`, before `list_add_tail` -/
  | enqueue (k : Nat)
  /-- in `task_sleep`, before it drops the lock of the condition -/
  | release (k : Nat)
  /-- in `task_sleep`, in `task_sched` or back from it -/
  | asleep (k : Nat)
  /-- in `task_sleep`, before it takes the lock of the condition again -/
  | relock (k : Nat)
  /-- in `task_yield`, in `task_sched` or back from it -/
  | yield
  /-- in `task_exit`, in `task_sched` -/
  | exit
  deriving DecidableEq, Repr

/-- Who holds the lock of a task: the task itself, from before `task_sched` until the next task on
the CPU drops it, or a caller of `task_wait`. -/
inductive Owner where
  | self
  | peer (w : Nat)
  deriving DecidableEq, Repr

structure Task where
  pc : Pc
  state : TaskState
  chan : Option Nat
  lock : Option Owner
  /-- the task's `queue` node is on a list -/
  linked : Bool
  oncpu : Option Nat
  cpu : Nat

/-- What a CPU is doing. `none` stands for its idle task. -/
inductive Cpu where
  | run (current : Option Nat)
  /-- `task_sched`, before the switch over the state of the task -/
  | sched (curr : Option Nat)
  /-- `task_sched`, before `task_pick_next` -/
  | pick (curr : Option Nat)
  /-- `task_sched`, before the lock of the next task is taken -/
  | lockNext (curr next : Option Nat)
  /-- behind `context_switch`, before `task_sched_resume` -/
  | resume (prev next : Option Nat)
  deriving DecidableEq, Repr

/-- Where a waker stands. `held` says whether it still has the lock of the condition. -/
inductive Waker where
  | out
  /-- has the lock of the condition -/
  | holds (k : Nat)
  /-- at the head of the loop of `task_wake_all` -/
  | wake (k : Nat) (held : Bool)
  /-- in `list_for_each_entry`, with the entries that are left -/
  | scan (k : Nat) (held : Bool) (rest : List Nat) (retry : Bool)
  /-- before `task_join(wakee)` -/
  | join (k : Nat) (held : Bool) (wakee : Nat)
  /-- at the head of the loop of `task_wake_spec` -/
  | spec (t : Nat)
  /-- in `task_wake_spec`, before `task_join` -/
  | specJoin (t : Nat)
  /-- in `task_wait`, with the lock of a child -/
  | peek (t : Nat)
  deriving DecidableEq, Repr

/-- Who can hold the lock of a condition. -/
inductive Party where
  | task (t : Nat)
  | waker (w : Nat)
  deriving DecidableEq, Repr

structure Sys where
  cond : Nat → Bool
  /-- the locks of the conditions -/
  holder : Nat → Option Party
  /-- `sleep_queue_lock`, as far as it is held from one action to the next -/
  sleepQueueLock : Option Nat
  sleepQueue : List Nat
  runQueue : Nat → List Nat
  task : Nat → Task
  cpu : Nat → Cpu
  waker : Nat → Waker
  panicked : Bool

namespace Sys

def setTask (s : Sys) (t : Nat) (task : Task) : Sys :=
  { s with task := update s.task t task }

def setCpu (s : Sys) (i : Nat) (cpu : Cpu) : Sys :=
  { s with cpu := update s.cpu i cpu }

def setWaker (s : Sys) (w : Nat) (waker : Waker) : Sys :=
  { s with waker := update s.waker w waker }

def setHolder (s : Sys) (l : Nat) (holder : Option Party) : Sys :=
  { s with holder := update s.holder l holder }

def setCond (s : Sys) (k : Nat) (b : Bool) : Sys :=
  { s with cond := update s.cond k b }

def panic (s : Sys) : Sys := { s with panicked := true }

/-- `assert`: the system goes on in `s` if the condition holds. -/
def assert (s : Sys) (c : Bool) : Sys := if c then s else s.panic

/-- `list_add_tail(&task->queue, &cpu->run_queue)` with the CPU `j`. -/
def addTail (s : Sys) (t j : Nat) : Sys :=
  ({ s with runQueue := update s.runQueue j (s.runQueue j ++ [t]) } : Sys).setTask t
    { s.task t with cpu := j, linked := true }

/-- `task_join`, called on the CPU `here`; `target` is the CPU that `task_select_cpu` finds. A task
that is still on a CPU stays there. -/
def taskJoin (s : Sys) (t here target : Nat) : Sys :=
  let task := s.task t
  (s.addTail t (if task.oncpu = none then target else task.cpu)).assert
    ((task.oncpu = none || task.cpu = here) && !task.linked && task.state = .running)

variable (C : Conds)

/-- The next section of the code of the task `t`, running on CPU `i`. -/
def advance (s : Sys) (i t : Nat) : Option Sys :=
  let task := s.task t
  match task.pc with
  | .create | .user | .inside _ => none
  -- `complete_task_switch`, and `task_yield` behind `task_sched`
  | .start | .yield => some (s.setTask t { task with pc := .user, lock := none })
  | .test k =>
    if s.cond k then some (s.setTask t { task with pc := .inside k })
    else if task.lock = none then
      some ((s.setTask t { task with
        pc := .enqueue k, state := .sleeping, chan := some (C.chan k), lock := some .self }).assert
        (s.holder (C.lock k)).isSome)
    else none
  | .enqueue k =>
    if s.sleepQueueLock = none then
      some (({ s with sleepQueue := s.sleepQueue ++ [t] } : Sys).setTask t
        { task with pc := .release k, linked := true })
    else none
  | .release k =>
    some (((s.setHolder (C.lock k) none).setTask t { task with pc := .asleep k }).setCpu i
      (.sched (some t)))
  | .asleep k => some (s.setTask t { task with pc := .relock k, chan := none, lock := none })
  | .relock k =>
    if s.holder (C.lock k) = none then
      some ((s.setHolder (C.lock k) (some (.task t))).setTask t { task with pc := .test k })
    else none
  -- "scheduling zombie"
  | .exit => some s.panic

/-- What a running task can choose to do. -/
inductive TaskOp where
  | advance
  | lock (k : Nat)
  | clear
  | unlock
  | yield
  | exit
  deriving DecidableEq, Repr

/-- The condition whose loop a task has left. -/
def insideOf : Pc → Option Nat
  | .inside k => some k
  | _ => none

def runTask (s : Sys) (i t : Nat) : TaskOp → Option Sys
  | .advance => s.advance C i t
  | .lock k =>
    if (s.task t).pc = .user ∧ s.holder (C.lock k) = none then
      some ((s.setHolder (C.lock k) (some (.task t))).setTask t { s.task t with pc := .test k })
    else none
  | .clear => (insideOf (s.task t).pc).map fun k => s.setCond k false
  | .unlock => (insideOf (s.task t).pc).map fun k =>
    (s.setHolder (C.lock k) none).setTask t { s.task t with pc := .user }
  | .yield =>
    if (s.task t).pc = .user ∧ (s.task t).lock = none then
      some ((s.setTask t { s.task t with pc := .yield, lock := some .self }).setCpu i
        (.sched (some t)))
    else none
  | .exit =>
    if (s.task t).pc = .user ∧ (s.task t).lock = none then
      some ((s.setTask t { s.task t with
        pc := .exit, state := .zombie, lock := some .self }).setCpu i (.sched (some t)))
    else none

/-- `task_sched` up to `task_pick_next`: a task that is still running goes back on the run queue of
its CPU. -/
def schedCurr (s : Sys) (i t : Nat) : Sys :=
  let task := s.task t
  let checked := s.assert (task.lock.isSome && task.oncpu = some i)
  let joined :=
    match task.state with
    | .running => checked.taskJoin t i i
    | .zombie | .sleeping => checked
    | .new => checked.panic
  joined.setCpu i (.pick (some t))

/-- `list_del_init` of the first task on the run queue of CPU `i`. -/
def delHead (s : Sys) (i n : Nat) : Sys :=
  ({ s with runQueue := update s.runQueue i (s.runQueue i).tail } : Sys).setTask n
    { s.task n with linked := false }

/-- `task_pick_next`, and the test `next == curr`. -/
def pickNext (s : Sys) (i : Nat) (curr : Option Nat) : Sys :=
  match (s.runQueue i).head? with
  | none => s.setCpu i (if curr = none then .run none else .lockNext curr none)
  | some n =>
    ((s.delHead i n).assert ((s.task n).cpu = i)).setCpu i
      (if curr = some n then .run (some n) else .lockNext curr (some n))

/-- `task_sched` from the lock of the next task to `context_switch`. -/
def lockNext (s : Sys) (i : Nat) (curr : Option Nat) : Option Nat → Option Sys
  | none => some (s.setCpu i (.resume curr none))
  | some n =>
    if (s.task n).lock = none then
      some (((s.setTask n { s.task n with lock := some .self, oncpu := some i }).assert
        ((s.task n).oncpu = none)).setCpu i (.resume curr (some n)))
    else none

/-- `task_sched_resume`. -/
def taskSchedResume (s : Sys) (i : Nat) (next : Option Nat) : Option Nat → Sys
  | none => s.setCpu i (.run next)
  | some p => (s.setTask p { s.task p with oncpu := none, lock := none }).setCpu i (.run next)

/-- The next section of `task_sched` on CPU `i`. -/
def taskSched (s : Sys) (i : Nat) : Option Sys :=
  match s.cpu i with
  | .run _ => none
  | .sched none => some (s.setCpu i (.pick none))
  | .sched (some t) => some (s.schedCurr i t)
  | .pick curr => some (s.pickNext i curr)
  | .lockNext curr next => s.lockNext i curr next
  | .resume prev next => some (s.taskSchedResume i next prev)

/-- The task as the wakers leave it when they take it off the sleep queue. -/
def wakeUp (s : Sys) (p : Nat) : Sys :=
  ({ s with sleepQueue := s.sleepQueue.erase p } : Sys).setTask p
    { s.task p with state := .running, chan := none, linked := false }

/-- One entry of `list_for_each_entry` in `task_wake_all`. -/
def wakeVisit (s : Sys) (w k : Nat) (held : Bool) (p : Nat) (rest : List Nat) (retry : Bool) :
    Sys :=
  let task := s.task p
  if task.state ≠ .sleeping ∨ task.chan ≠ some (C.chan k) then
    s.setWaker w (.scan k held rest retry)
  else if task.lock ≠ none then s.setWaker w (.scan k held rest true)
  else ({ s.wakeUp p with sleepQueueLock := none } : Sys).setWaker w (.join k held p)

/-- One turn of the loop of `task_wake_spec`. -/
def wakeSeek (s : Sys) (w t : Nat) : Sys :=
  if t ∉ s.sleepQueue ∨ (s.task t).state ≠ .sleeping then s.setWaker w .out
  else if (s.task t).lock ≠ none then s
  else (s.wakeUp t).setWaker w (.specJoin t)

/-- What a waker does next when the scan of `task_wake_all` has taken nobody. -/
def afterScan (k : Nat) (held retry : Bool) : Waker :=
  if retry then .wake k held else if held then .holds k else .out

inductive WakeOp where
  | lock (k : Nat)
  | clear
  | set
  | drop
  | unlock
  | scan
  | visit
  | finish
  | join (here target : Nat)
  | spec (t : Nat)
  | seek
  | peek (t : Nat)
  | unpeek
  deriving DecidableEq, Repr

def runWaker (s : Sys) (w : Nat) (op : WakeOp) : Option Sys :=
  match s.waker w, op with
  | .out, .lock k =>
    if s.holder (C.lock k) = none then
      some ((s.setHolder (C.lock k) (some (.waker w))).setWaker w (.holds k))
    else none
  | .out, .spec t => some (s.setWaker w (.spec t))
  | .out, .peek t =>
    if (s.task t).lock = none then
      some ((s.setTask t { s.task t with lock := some (.peer w) }).setWaker w (.peek t))
    else none
  | .holds k, .clear => some (s.setCond k false)
  | .holds k, .set => some ((s.setCond k true).setWaker w (.wake k true))
  | .holds k, .unlock => some ((s.setHolder (C.lock k) none).setWaker w .out)
  | .wake k true, .drop => some ((s.setHolder (C.lock k) none).setWaker w (.wake k false))
  | .wake k held, .scan =>
    if s.sleepQueueLock = none then
      some (({ s with sleepQueueLock := some w } : Sys).setWaker w
        (.scan k held s.sleepQueue false))
    else none
  | .scan k held (p :: rest) retry, .visit => some (s.wakeVisit C w k held p rest retry)
  | .scan k held [] retry, .finish =>
    some (({ s with sleepQueueLock := none } : Sys).setWaker w (afterScan k held retry))
  | .join k held p, .join here target =>
    some ((s.taskJoin p here target).setWaker w (.wake k held))
  | .spec t, .seek => if s.sleepQueueLock = none then some (s.wakeSeek w t) else none
  | .specJoin t, .join here target => some ((s.taskJoin t here target).setWaker w .out)
  | .peek t, .unpeek =>
    some ((s.setTask t { s.task t with lock := none }).setWaker w .out)
  | _, _ => none

/-- `task_create` and the `task_join` of its caller. -/
def spawn (s : Sys) (t here target : Nat) : Option Sys :=
  if (s.task t).pc = .create then
    some ((s.setTask t { s.task t with pc := .start, state := .running }).taskJoin t here target)
  else none

end Sys

/-- The actions of the system. -/
inductive Action where
  /-- the task on a CPU, or its idle task -/
  | run (i : Nat) (op : Sys.TaskOp)
  | sched (i : Nat)
  | wake (w : Nat) (op : Sys.WakeOp)
  | spawn (t here target : Nat)

variable (C : Conds)

/-- What runs on a CPU outside of `task_sched`. The idle task only yields. -/
def Sys.runCurrent (s : Sys) (i : Nat) (op : Sys.TaskOp) : Option Sys :=
  match s.cpu i, op with
  | .run (some t), op => s.runTask C i t op
  | .run none, .yield => some (s.setCpu i (.sched none))
  | _, _ => none

/-- One action, if it is enabled. -/
def fire (a : Action) (s : Sys) : Option Sys :=
  if s.panicked then none else
  match a with
  | .run i op => s.runCurrent C i op
  | .sched i => s.taskSched i
  | .wake w op => s.runWaker C w op
  | .spawn t here target => s.spawn t here target

/-- The task as `task_alloc` has it before `task_create`. -/
def freshTask : Task :=
  ⟨.create, .new, none, none, false, none, 0⟩

/-- The system with every CPU in its idle task and no other task. -/
def boot (cond : Nat → Bool) : Sys where
  cond := cond
  holder _ := none
  sleepQueueLock := none
  sleepQueue := []
  runQueue _ := []
  task _ := freshTask
  cpu _ := .run none
  waker _ := .out
  panicked := false

/-- One step of the system. -/
def Step (s s' : Sys) : Prop := ∃ a, fire C a s = some s'

/-- The actions of a run, one after the other. -/
def fireAll : List Action → Sys → Option Sys
  | [], s => some s
  | a :: rest, s => (fire C a s).bind (fireAll rest)

/-- Every interleaving from the start is a run. -/
def Reachable (cond : Nat → Bool) (s : Sys) : Prop := Lib.Run (Step C) (boot cond) s

theorem run_of_fireAll (acts : List Action) {s s' : Sys} (h : fireAll C acts s = some s') :
    Lib.Run (Step C) s s' := by
  induction acts generalizing s with
  | nil =>
    cases h
    exact Relation.ReflTransGen.refl
  | cons a rest ih =>
    obtain ⟨mid, hfire, hrest⟩ := Option.bind_eq_some_iff.1 h
    exact Relation.ReflTransGen.head ⟨a, hfire⟩ (ih hrest)

end BrkKernel.Sched
