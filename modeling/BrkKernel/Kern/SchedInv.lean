import BrkKernel.Kern.Sched
import Mathlib.Data.List.Count
import Mathlib.Tactic.Common

/-!
# Where every task is

`Sys.view` collects all that the queues, the CPUs and the wakers say about one task. In every
reachable state the view of a task is one of the few of `Stage.view`.
-/

set_option autoImplicit false

namespace BrkKernel.Sched

open Function List

/-! ## The view of a task -/

/-- What a CPU is doing with a task. -/
inductive Role where
  | absent
  | running
  /-- in `task_sched`, before the switch over its state -/
  | leaving
  /-- in `task_sched`, or switched away from -/
  | left
  /-- off the run queue, to be locked -/
  | picked
  /-- switched to, with the task before it still to be let go -/
  | arriving
  deriving DecidableEq, Repr

def Cpu.role : Cpu → Nat → Role
  | .run c, t => if c = some t then .running else .absent
  | .sched c, t => if c = some t then .leaving else .absent
  | .pick c, t => if c = some t then .left else .absent
  | .lockNext c n, t => if c = some t then .left else if n = some t then .picked else .absent
  | .resume p n, t => if p = some t then .left else if n = some t then .arriving else .absent

/-- The sleeper a waker has taken off the sleep queue and not yet passed to `task_join`. -/
def Waker.hand : Waker → Option Nat
  | .join _ _ p => some p
  | .specJoin t => some t
  | _ => none

@[ext]
structure View where
  pc : Pc
  state : TaskState
  chan : Option Nat
  /-- the task's own context has its lock -/
  own : Bool
  linked : Bool
  oncpu : Option Nat
  cpu : Nat
  /-- how often the task is on the sleep queue -/
  sleeping : Nat
  /-- how often the task is on each run queue -/
  queued : Nat → Nat
  role : Nat → Role
  hand : Nat → Bool

open View

def Sys.view (s : Sys) (t : Nat) : View where
  pc := (s.task t).pc
  state := (s.task t).state
  chan := (s.task t).chan
  own := (s.task t).lock == some .self
  linked := (s.task t).linked
  oncpu := (s.task t).oncpu
  cpu := (s.task t).cpu
  sleeping := s.sleepQueue.count t
  queued j := (s.runQueue j).count t
  role i := (s.cpu i).role t
  hand w := (s.waker w).hand == some t

/-! ## Stages -/

/-- Why a task is in `task_sched`. -/
inductive Why where
  | sleep (k : Nat) | yield | exit

/-- Where a task goes on when a CPU takes it up. -/
inductive Back where
  | start | sleep (k : Nat) | yield

def Why.pc : Why → Pc
  | .sleep k => .asleep k
  | .yield => .yield
  | .exit => .exit

def Why.state : Why → TaskState
  | .sleep _ => .sleeping
  | .yield => .running
  | .exit => .zombie

def Back.pc : Back → Pc
  | .start => .start
  | .sleep k => .asleep k
  | .yield => .yield

variable (C : Conds) {c : Cpu} {curr : Option Nat} {waker : Waker} {back : Back}

def Why.chan : Why → Option Nat
  | .sleep k => some (C.chan k)
  | _ => none

/-- The code a task on a CPU can be in. -/
def Pc.active : Pc → Bool
  | .create | .exit => false
  | _ => true

/-- The condition a task has announced to sleep on. -/
def Pc.announced : Pc → Option Nat
  | .enqueue k | .release k => some k
  | _ => none

/-- The task's own lock, while the task is running. -/
def Pc.owns : Pc → Bool
  | .start | .enqueue _ | .release _ | .asleep _ | .yield => true
  | _ => false

/-- The task is on the sleep queue, while the task is running. -/
def Pc.published : Pc → Bool
  | .release _ => true
  | _ => false

/-- What a task goes through. -/
inductive Stage where
  | unborn (c : Nat)
  | exec (i : Nat) (pc : Pc) (h : pc.active = true)
  | leave (i : Nat) (why : Why)
  | left (i : Nat) (why : Why)
  | asleep (c k : Nat)
  | moving (w c k : Nat)
  | ready (j : Nat) (back : Back)
  | picked (i : Nat) (back : Back)
  | arrive (i : Nat) (back : Back)
  | dead (c : Nat)

open Stage

variable {n p u : Nat} {st : Stage} {r : Task} {why : Why}

/-- Once on the queue `i`. -/
abbrev onceAt (i : Nat) : Nat → Nat := update (fun _ => 0) i 1

/-- On the CPU `i` only. -/
abbrev roleAt (i : Nat) (r : Role) : Nat → Role := update (fun _ => .absent) i r

/-- The view of a task that no queue, CPU or waker knows of. -/
def View.away (pc : Pc) (state : TaskState) (cpu : Nat) : View :=
  ⟨pc, state, none, false, false, none, cpu, 0, fun _ => 0, fun _ => .absent, fun _ => false⟩

def Stage.view : Stage → View
  | .unborn c => View.away .create .new c
  | .exec i pc _ =>
    { View.away pc (if pc.announced = none then .running else .sleeping) i with
      chan := pc.announced.map C.chan, own := pc.owns, linked := pc.published, oncpu := some i
      sleeping := pc.published.toNat, role := roleAt i .running }
  | .leave i why =>
    { View.away why.pc why.state i with
      chan := why.chan C, own := true, linked := why.state = .sleeping, oncpu := some i
      sleeping := if why.state = .sleeping then 1 else 0, role := roleAt i .leaving }
  | .left i why =>
    { View.away why.pc why.state i with
      chan := why.chan C, own := true, linked := why.state ≠ .zombie, oncpu := some i
      sleeping := if why.state = .sleeping then 1 else 0
      queued := if why.state = .running then onceAt i else fun _ => 0
      role := roleAt i .left }
  | .asleep c k =>
    { View.away (.asleep k) .sleeping c with
      chan := some (C.chan k), linked := true, sleeping := 1 }
  | .moving w c k => { View.away (.asleep k) .running c with hand := fun w' => w' == w }
  | .ready j back => { View.away back.pc .running j with linked := true, queued := onceAt j }
  | .picked i back => { View.away back.pc .running i with role := roleAt i .picked }
  | .arrive i back =>
    { View.away back.pc .running i with
      own := true, oncpu := some i, role := roleAt i .arriving }
  | .dead c => View.away .exit .zombie c

/-- The task is in one of the stages. -/
def Placed (s : Sys) (t : Nat) : Prop := ∃ st : Stage, s.view t = st.view C

/-! ## How an update of the state changes the views -/

section Views

variable (s : Sys) {w : Nat}

/-- The view with all that the record of the task says. -/
def View.withTask (v : View) (r : Task) : View :=
  { v with
    pc := r.pc, state := r.state, chan := r.chan, own := r.lock == some .self
    linked := r.linked, oncpu := r.oncpu, cpu := r.cpu }

theorem view_setTask (t : Nat) (r : Task) : (s.setTask t r).view t = (s.view t).withTask r := by
  simp [Sys.view, Sys.setTask, withTask]

theorem view_setTask_of_ne {t : Nat} (r : Task) (h : u ≠ t) :
    (s.setTask t r).view u = s.view u := by
  simp [Sys.view, Sys.setTask, h]

theorem view_setCpu (i u : Nat) (c : Cpu) : (s.setCpu i c).view u =
      { s.view u with role := update (s.view u).role i (c.role u) } :=
  congrArg (fun role => ({ s.view u with role := role } : View))
    (comp_update (fun c : Cpu => c.role u) s.cpu i c)

theorem view_setCpu_of_role {i : Nat} (h : c.role u = (s.cpu i).role u) :
    (s.setCpu i c).view u = s.view u := by
  have hrole : c.role u = (s.view u).role i := h
  rw [view_setCpu, hrole, update_eq_self]

theorem view_setWaker (w u : Nat) (p : Waker) : (s.setWaker w p).view u =
      { s.view u with hand := update (s.view u).hand w (p.hand == some u) } :=
  congrArg (fun hand => ({ s.view u with hand := hand } : View))
    (comp_update (fun p : Waker => p.hand == some u) s.waker w p)

theorem view_setWaker_of_eq {p : Waker} (h : (p.hand == some u) = (s.view u).hand w) :
    (s.setWaker w p).view u = s.view u := by
  rw [view_setWaker, h, update_eq_self]

theorem view_setWaker_of_hand {p : Waker} (h : p.hand = (s.waker w).hand) :
    (s.setWaker w p).view u = s.view u := by
  apply view_setWaker_of_eq
  rw [h]
  rfl

theorem view_runQueue (j u : Nat) (q : List Nat) :
    ({ s with runQueue := update s.runQueue j q } : Sys).view u =
      { s.view u with queued := update (s.view u).queued j (q.count u) } :=
  congrArg (fun queued => ({ s.view u with queued := queued } : View))
    (comp_update (count u) s.runQueue j q)

end Views

/-! ## The stage behind a guard of the code -/

section Inversion

variable {C} {s : Sys} {i j t w : Nat}

theorem eq_of_roleAt {r : Role} (h : roleAt j r i ≠ .absent) : i = j := by
  by_contra hne
  exact h (update_of_ne hne _ _)

/-- No two CPUs do something with a task. -/
theorem Stage.role_unique (hi : (st.view C).role i ≠ .absent) (hj : (st.view C).role j ≠ .absent) :
    i = j := by
  cases st with
  | exec | leave | left | picked | arrive => exact (eq_of_roleAt hi).trans (eq_of_roleAt hj).symm
  | unborn | asleep | moving | ready | dead => exact absurd rfl hi

section

variable (hp : Placed C s t)

include hp

/-- The stage of a task that a CPU does something with. -/
theorem Placed.place {r : Role} (h : (s.cpu i).role t = r) :
    match r with
    | .absent => True
    | .running => ∃ pc hpc, s.view t = (exec i pc hpc).view C
    | .leaving => ∃ why, s.view t = (leave i why).view C
    | .left => ∃ why, s.view t = (left i why).view C
    | .picked => ∃ back, s.view t = (picked i back).view C
    | .arriving => ∃ back, s.view t = (arrive i back).view C := by
  obtain ⟨st, hst⟩ := hp
  have hrole : (st.view C).role i = r := by
    rw [← hst]
    exact h
  have hat : ∀ {i' r'}, roleAt i' r' i = r → (i' = i ∧ r' = r) ∨ .absent = r := by
    intro i' r' hr
    by_cases hi : i = i'
    · exact .inl ⟨hi.symm, by rwa [roleAt, hi, update_self] at hr⟩
    · exact .inr (by rwa [roleAt, update_of_ne hi] at hr)
  cases st with
  | exec i' pc hpc =>
    obtain ⟨rfl, rfl⟩ | rfl := hat hrole
    · exact ⟨pc, hpc, hst⟩
    · trivial
  | leave i' x | left i' x | picked i' x | arrive i' x =>
    obtain ⟨rfl, rfl⟩ | rfl := hat hrole
    · exact ⟨x, hst⟩
    · trivial
  | unborn | asleep | moving | ready | dead =>
    subst hrole
    trivial

theorem Placed.exec (h : s.cpu i = .run (some t)) :
    ∃ hpc, s.view t = (exec i (s.task t).pc hpc).view C := by
  obtain ⟨pc, hpc, hst⟩ := hp.place (i := i) (r := .running) (by simp [h, Cpu.role])
  obtain rfl : (s.task t).pc = pc := congrArg View.pc hst
  exact ⟨hpc, hst⟩

theorem Placed.leave (h : s.cpu i = .sched (some t)) : ∃ why, s.view t = (leave i why).view C :=
  hp.place (i := i) (r := .leaving) (by simp [h, Cpu.role])

theorem Placed.left (h : (s.cpu i).role t = .left) : ∃ why, s.view t = (left i why).view C :=
  hp.place h

theorem Placed.picked (h : (s.cpu i).role t = .picked) :
    ∃ back, s.view t = (picked i back).view C := hp.place h

theorem Placed.arrive (h : (s.cpu i).role t = .arriving) :
    ∃ back, s.view t = (arrive i back).view C := hp.place h

/-- A task in the hand of a waker has been taken off the sleep queue and is nowhere else. -/
theorem Placed.moving (h : (s.waker w).hand = some t) :
    ∃ c k, s.view t = (moving w c k).view C := by
  obtain ⟨st, hst⟩ := hp
  have hhand : (st.view C).hand w = true := by
    rw [← hst]
    simp [Sys.view, h]
  cases st with
  | moving w' c k =>
    obtain rfl : w = w' := by simpa [view] using hhand
    exact ⟨c, k, hst⟩
  | exec | leave | left | picked | arrive | unborn | asleep | ready | dead => cases hhand

/-- A task on a run queue is on no other, and either off its CPU or on its way to leave it. -/
theorem Placed.queued (h : t ∈ s.runQueue j) : (∃ back, s.view t = (Stage.ready j back).view C) ∨
      s.view t = (Stage.left j .yield).view C := by
  obtain ⟨st, hst⟩ := hp
  have hcount : (st.view C).queued j ≠ 0 := by
    rw [← hst]
    exact Nat.ne_of_gt (count_pos_iff.2 h)
  have honce : ∀ i, onceAt i j ≠ 0 → j = i := by
    intro i hi
    by_contra hne
    simp [onceAt, hne] at hi
  cases st with
  | ready j' back =>
    obtain rfl := honce _ hcount
    exact Or.inl ⟨back, hst⟩
  | left i' why =>
    cases why with
    | yield =>
      obtain rfl := honce _ hcount
      exact Or.inr hst
    | sleep | exit => exact absurd rfl hcount
  | exec | leave | picked | arrive | unborn | asleep | moving | dead => exact absurd rfl hcount

/-- A task on the sleep queue that has let go of its own lock is off every CPU. -/
theorem Placed.asleep (h : t ∈ s.sleepQueue) (hlock : (s.task t).lock = none) :
    ∃ c k, s.view t = (asleep c k).view C := by
  obtain ⟨st, hst⟩ := hp
  have hcount : (st.view C).sleeping ≠ 0 := by
    rw [← hst]
    exact Nat.ne_of_gt (count_pos_iff.2 h)
  have hown : (st.view C).own = false := by
    rw [← hst]
    simp [Sys.view, hlock]
  cases st with
  | asleep c k => exact ⟨c, k, hst⟩
  | exec i pc =>
    cases pc with
    | release => cases hown
    | create | start | user | test | inside | enqueue | asleep | relock | yield | exit =>
      exact absurd rfl hcount
  | leave | left => cases hown
  | picked | arrive | unborn | moving | ready | dead => exact absurd rfl hcount

theorem Placed.unborn (h : (s.task t).pc = .create) : ∃ c, s.view t = (unborn c).view C := by
  obtain ⟨st, hst⟩ := hp
  have hpc : (st.view C).pc = .create := by
    rw [← hst]
    exact h
  cases st with
  | unborn c => exact ⟨c, hst⟩
  | exec i pc hact =>
    obtain rfl : pc = .create := hpc
    cases hact
  | leave i why | left i why => cases why <;> cases hpc
  | picked i back | arrive i back | ready i back => cases back <;> cases hpc
  | asleep | moving | dead => cases hpc

end

/-- The condition a task on the sleep queue sleeps on. -/
def Pc.sleepsOn : Pc → Option Nat
  | .release k | .asleep k => some k
  | _ => none

/-- A task on the sleep queue is there for a condition, with the channel of this condition. -/
theorem Placed.sleepsOn (hp : Placed C s t) (h : t ∈ s.sleepQueue) : (s.task t).state = .sleeping ∧
      ∃ k, (s.task t).pc.sleepsOn = some k ∧ (s.task t).chan = some (C.chan k) := by
  obtain ⟨st, hst⟩ := hp
  have hcount : (st.view C).sleeping ≠ 0 := by
    rw [← hst]
    exact Nat.ne_of_gt (count_pos_iff.2 h)
  have hgoal : (st.view C).state = .sleeping ∧
      ∃ k, (st.view C).pc.sleepsOn = some k ∧ (st.view C).chan = some (C.chan k) := by
    cases st with
    | asleep c k => exact ⟨rfl, k, rfl, rfl⟩
    | exec i pc =>
      cases pc with
      | release k => exact ⟨rfl, k, rfl, rfl⟩
      | create | start | user | test | inside | enqueue | asleep | relock | yield | exit =>
        exact absurd rfl hcount
    | leave i why | left i why =>
      cases why with
      | sleep k => exact ⟨rfl, k, rfl, rfl⟩
      | yield | exit => exact absurd rfl hcount
    | picked | arrive | unborn | moving | ready | dead => exact absurd rfl hcount
  rw [← hst] at hgoal
  exact hgoal

theorem not_mem_sleepQueue (h : (s.view t).sleeping = 0) : t ∉ s.sleepQueue :=
  count_eq_zero.1 h

end Inversion

/-! ## What the sections of the code do to the stages -/

/-- One task goes to the stage `st`, and the others stay where they are. -/
def Moves (s s' : Sys) (t : Nat) (st : Stage) : Prop :=
  s'.view t = st.view C ∧ ∀ u, u ≠ t → s'.view u = s.view u

section Moves

variable {C} {s s' : Sys} {i j t u w k : Nat} {pc : Pc} {h : pc.active = true}

theorem Moves.placed (hm : Moves C s s' t st) (hall : ∀ u, Placed C s u) (u : Nat) :
    Placed C s' u := by
  by_cases hu : u = t
  · subst hu
    exact ⟨st, hm.1⟩
  · rw [Placed, hm.2 u hu]
    exact hall u

/-- Only the record of the task changes. -/
theorem moves_setTask (hv : (s.view t).withTask r = st.view C) :
    Moves C s (s.setTask t r) t st := by
  refine ⟨?_, fun u hu => view_setTask_of_ne s r hu⟩
  rw [view_setTask]
  exact hv

/-- `complete_task_switch` and the end of `task_yield`. -/
theorem moves_user (hv : s.view t = (exec i pc h).view C) (hpc : pc = .start ∨ pc = .yield) :
    Moves C s (s.setTask t { s.task t with pc := .user, lock := none }) t (.exec i .user rfl) := by
  apply moves_setTask
  show ({ s.view t with pc := .user, own := false } : View) = _
  rw [hv]
  rcases hpc with rfl | rfl <;> rfl

/-- The points of the code where the task has neither its own lock nor anything to do with the
sleep queue. -/
def Pc.quiet (pc : Pc) : Prop :=
  pc.announced = none ∧ pc.owns = false ∧ pc.published = false

theorem moves_quiet {pc' : Pc} (hv : s.view t = (exec i pc h).view C) (hq : pc.quiet)
    (hq' : pc'.quiet) (hact : pc'.active = true) :
    Moves C s (s.setTask t { s.task t with pc := pc' }) t (.exec i pc' hact) := by
  apply moves_setTask
  show ({ s.view t with pc := pc' } : View) = _
  obtain ⟨hann, howns, hpub⟩ := hq
  obtain ⟨hann', howns', hpub'⟩ := hq'
  rw [hv]
  simp [view, hann, howns, hpub, hann', howns', hpub', away]

/-- `task_sleep` up to the sleep queue. -/
theorem moves_announce (hv : s.view t = (exec i (.test k) rfl).view C) :
    Moves C s (s.setTask t { s.task t with
      pc := .enqueue k, state := .sleeping, chan := some (C.chan k), lock := some .self }) t
      (.exec i (.enqueue k) rfl) := by
  apply moves_setTask
  show ({ s.view t with
    pc := .enqueue k, state := .sleeping, chan := some (C.chan k), own := true } : View) = _
  rw [hv]
  rfl

/-- `list_add_tail(&task->queue, &sleep_queue)`. -/
theorem moves_publish (hv : s.view t = (exec i (.enqueue k) rfl).view C) :
    Moves C s (({ s with sleepQueue := s.sleepQueue ++ [t] } : Sys).setTask t
      { s.task t with pc := .release k, linked := true }) t (.exec i (.release k) rfl) := by
  have hcount : s.sleepQueue.count t = 0 := congrArg sleeping hv
  refine ⟨?_, fun u hu => ?_⟩
  · rw [view_setTask]
    show ({ s.view t with
      pc := .release k, linked := true, sleeping := (s.sleepQueue ++ [t]).count t } : View) = _
    rw [hv, count_append, hcount]
    simp [view, away, Pc.announced, Pc.owns, Pc.published]
  · rw [view_setTask_of_ne _ _ hu]
    show ({ s.view u with sleeping := (s.sleepQueue ++ [t]).count u } : View) = _
    rw [count_append, count_singleton, if_neg (by simpa using Ne.symm hu)]
    rfl

/-- `task_sleep` behind `task_sched`. -/
theorem moves_resumed (hv : s.view t = (exec i (.asleep k) rfl).view C) :
    Moves C s (s.setTask t { s.task t with pc := .relock k, chan := none, lock := none }) t
      (.exec i (.relock k) rfl) := by
  apply moves_setTask
  show ({ s.view t with pc := .relock k, chan := none, own := false } : View) = _
  rw [hv]
  rfl

/-- The record of the task and the CPU it is on change. -/
theorem moves_setTask_setCpu (hrole : ∀ u, u ≠ t → c.role u = (s.cpu i).role u)
    (hv : ({ (s.view t).withTask r with
        role := update (s.view t).role i (c.role t) } : View) = st.view C) :
    Moves C s ((s.setTask t r).setCpu i c) t st := by
  refine ⟨?_, fun u hu => ?_⟩
  · rw [view_setCpu, view_setTask]
    exact hv
  · rw [view_setCpu_of_role (s.setTask t r) (hrole u hu), view_setTask_of_ne s r hu]

section

variable (hcpu : s.cpu i = .run (some t))

include hcpu

/-- A task enters `task_sched`. -/
theorem moves_sched
    (hv : ({ (s.view t).withTask r with
        role := update (s.view t).role i .leaving } : View) = (leave i why).view C) :
    Moves C s ((s.setTask t r).setCpu i (.sched (some t))) t (.leave i why) := by
  apply moves_setTask_setCpu
  · intro u hu
    simp [hcpu, Cpu.role, Ne.symm hu]
  · have hrole : Cpu.role (.sched (some t)) t = .leaving := by simp [Cpu.role]
    rw [hrole]
    exact hv

/-- `task_sleep` drops the condition's lock and enters `task_sched`. -/
theorem moves_release (hv : s.view t = (exec i (.release k) rfl).view C) :
    Moves C s ((s.setTask t { s.task t with pc := .asleep k }).setCpu i (.sched (some t))) t
      (.leave i (.sleep k)) := by
  apply moves_sched hcpu
  show ({ s.view t with pc := .asleep k, role := _ } : View) = _
  simp [hv, view, away, Pc.announced, Pc.owns, Pc.published, Why.pc, Why.state, Why.chan]

/-- `task_yield` enters `task_sched`. -/
theorem moves_yield (hv : s.view t = (exec i .user rfl).view C) :
    Moves C s ((s.setTask t { s.task t with pc := .yield, lock := some .self }).setCpu i
      (.sched (some t))) t (.leave i .yield) := by
  apply moves_sched hcpu
  show ({ s.view t with pc := .yield, own := true, role := _ } : View) = _
  simp [hv, view, away, Pc.announced, Pc.published, Why.pc, Why.state, Why.chan]

/-- `task_exit` enters `task_sched`. -/
theorem moves_exit (hv : s.view t = (exec i .user rfl).view C) :
    Moves C s ((s.setTask t { s.task t with
      pc := .exit, state := .zombie, lock := some .self }).setCpu i (.sched (some t))) t
      (.leave i .exit) := by
  apply moves_sched hcpu
  show ({ s.view t with pc := .exit, state := .zombie, own := true, role := _ } : View) = _
  simp [hv, view, away, Pc.announced, Pc.published, Why.pc, Why.state, Why.chan]

end

/-! ### The run queues -/

theorem view_addTail (s : Sys) (t j : Nat) : (s.addTail t j).view t =
      { s.view t with
        cpu := j, linked := true
        queued := update (s.view t).queued j ((s.view t).queued j + 1) } := by
  rw [Sys.addTail, view_setTask, view_runQueue, count_append]
  simp [Sys.view, withTask]

theorem view_addTail_of_ne (s : Sys) (j : Nat) (hu : u ≠ t) :
    (s.addTail t j).view u = s.view u := by
  have hcount : (s.runQueue j ++ [t]).count u = (s.view u).queued j := by
    simp [Sys.view, count_append, Ne.symm hu]
  rw [Sys.addTail, view_setTask_of_ne _ _ hu, view_runQueue, hcount, update_eq_self]

theorem view_delHead (s : Sys) (i n : Nat) : (s.delHead i n).view n =
      { s.view n with
        linked := false
        queued := update (s.view n).queued i ((s.runQueue i).tail.count n) } := by
  rw [Sys.delHead, view_setTask, view_runQueue]
  simp [Sys.view, withTask]

theorem view_delHead_of_ne (h : (s.runQueue i).head? = some n) (hu : u ≠ n) :
    (s.delHead i n).view u = s.view u := by
  have hcount : (s.runQueue i).tail.count u = (s.view u).queued i := by
    obtain ⟨rest, hrest⟩ := head?_eq_some_iff.1 h
    simp [Sys.view, hrest, Ne.symm hu]
  rw [Sys.delHead, view_setTask_of_ne _ _ hu, view_runQueue, hcount, update_eq_self]

theorem assert_of_true {c : Bool} (hc : c = true) : s.assert c = s := by
  simp [Sys.assert, hc]

/-- The assertions of `task_join` hold for a task that is off its CPU. -/
theorem taskJoin_of_off {here target : Nat} (hoff : (s.task t).oncpu = none)
    (hlinked : (s.task t).linked = false) (hstate : (s.task t).state = .running) :
    s.taskJoin t here target = s.addTail t target := by
  simp [Sys.taskJoin, hoff, hlinked, hstate, Sys.assert]

/-- They hold for a task that yields its own CPU. -/
theorem taskJoin_of_on (hon : (s.task t).oncpu = some i) (hcpu : (s.task t).cpu = i)
    (hlinked : (s.task t).linked = false) (hstate : (s.task t).state = .running) :
    s.taskJoin t i i = s.addTail t i := by
  simp [Sys.taskJoin, hon, hcpu, hlinked, hstate, Sys.assert]

/-- The first half of `task_sched` stops at none of its assertions. -/
theorem schedCurr_eq (hv : s.view t = (leave i why).view C) : s.schedCurr i t =
      (if why.state = .running then s.addTail t i else s).setCpu i (.pick (some t)) := by
  have hown : ((s.task t).lock == some .self) = true := congrArg own hv
  have hon : (s.task t).oncpu = some i := congrArg oncpu hv
  have hcpu : (s.task t).cpu = i := congrArg cpu hv
  have hlinked : (s.task t).linked = decide (why.state = .sleeping) := congrArg linked hv
  have hstate : (s.task t).state = why.state := congrArg state hv
  have hlock : (s.task t).lock = some .self := by simpa using hown
  have hcheck : s.assert ((s.task t).lock.isSome && (s.task t).oncpu = some i) = s :=
    assert_of_true (by simp [hlock, hon])
  simp only [Sys.schedCurr, hcheck, hstate]
  cases why with
  | sleep | exit => rfl
  | yield =>
    rw [taskJoin_of_on hon hcpu hlinked hstate]
    rfl

theorem moves_schedCurr (hv : s.view t = (leave i why).view C)
    (hcpu : s.cpu i = .sched (some t)) : Moves C s (s.schedCurr i t) t (.left i why) := by
  rw [schedCurr_eq hv]
  refine ⟨?_, fun u hu => ?_⟩
  · rw [view_setCpu]
    cases why with
    | sleep | exit =>
      show ({ s.view t with role := update (s.view t).role i _ } : View) = _
      rw [hv]
      simp [view, away, Cpu.role, Why.state]
    | yield =>
      show ({ (s.addTail t i).view t with
        role := update ((s.addTail t i).view t).role i _ } : View) = _
      rw [view_addTail, hv]
      simp [view, away, Cpu.role, Why.state]
  · have hsame : (if why.state = .running then s.addTail t i else s).view u = s.view u := by
      split
      · exact view_addTail_of_ne s i hu
      · rfl
    rw [view_setCpu_of_role _ ?_, hsame]
    have hrole : (s.cpu i).role u = .absent := by simp [hcpu, Cpu.role, Ne.symm hu]
    have hcpu' : (if why.state = .running then s.addTail t i else s).cpu i = s.cpu i := by
      split <;> rfl
    rw [hcpu', hrole]
    simp [Cpu.role, Ne.symm hu]

/-! ### The second half of `task_sched` -/

/-- A CPU takes the first task off its run queue, where the task is once. -/
theorem moves_delHead (hhead : (s.runQueue i).head? = some n)
    (honce : (s.view n).queued i = 1) (hrole : ∀ u, u ≠ n → c.role u = (s.cpu i).role u)
    (hv : ({ s.view n with
        linked := false, queued := update (s.view n).queued i 0
        role := update (s.view n).role i (c.role n) } : View) = st.view C) :
    Moves C s ((s.delHead i n).setCpu i c) n st := by
  obtain ⟨rest, hrest⟩ := head?_eq_some_iff.1 hhead
  refine ⟨?_, fun u hu => ?_⟩
  · have hcount : (s.runQueue i).tail.count n = 0 := by simpa [Sys.view, hrest] using honce
    rw [view_setCpu, view_delHead, hcount]
    exact hv
  · rw [view_setCpu_of_role (s.delHead i n) (hrole u hu), view_delHead_of_ne hhead hu]

/-- `task_pick_next` finds the task that called `task_sched`. -/
theorem moves_pick_self (hp : Placed C s n) (hcpu : s.cpu i = .pick (some n))
    (hhead : (s.runQueue i).head? = some n) :
    Moves C s ((s.delHead i n).setCpu i (.run (some n))) n (.exec i .yield rfl) := by
  obtain ⟨why, hleft⟩ := hp.left (i := i) (by simp [hcpu, Cpu.role])
  have hmem : n ∈ s.runQueue i := mem_of_head? hhead
  have hv : s.view n = (left i .yield).view C := by
    rcases hp.queued hmem with ⟨back, hready⟩ | hyield
    · have hrole := congrFun (congrArg role (hready.symm.trans hleft)) i
      simp [view, away, roleAt] at hrole
    · exact hyield
  refine moves_delHead hhead ?_ (fun u hu => ?_) ?_
  · simp [hv, view, Why.state, onceAt]
  · simp [hcpu, Cpu.role, Ne.symm hu]
  · simp [hv, view, away, Cpu.role, Why.state, Why.pc, Why.chan, Pc.announced, Pc.owns,
      Pc.published]

/-- `task_pick_next` finds another task: it was ready and off its CPU. -/
theorem moves_pick (hp : Placed C s n) (hcpu : s.cpu i = .pick curr)
    (hhead : (s.runQueue i).head? = some n) (hne : curr ≠ some n) :
    ∃ back, s.view n = (Stage.ready i back).view C ∧
      Moves C s ((s.delHead i n).setCpu i (.lockNext curr (some n))) n (.picked i back) := by
  have hmem : n ∈ s.runQueue i := mem_of_head? hhead
  have hrole : (s.cpu i).role n = .absent := by simp [hcpu, Cpu.role, hne]
  rcases hp.queued hmem with ⟨back, hv⟩ | hyield
  · refine ⟨back, hv, moves_delHead hhead ?_ (fun u hu => ?_) ?_⟩
    · simp [hv, Stage.view, onceAt]
    · simp [hcpu, Cpu.role, Ne.symm hu]
    · simp [hv, Stage.view, away, Cpu.role, hne]
  · -- a task that leaves this CPU has a role on it
    have hleft := congrFun (congrArg role hyield) i
    simp [Sys.view, Stage.view, roleAt, hrole] at hleft

/-- `task_sched` locks the next task and switches to it. -/
theorem moves_lockNext
    (hv : s.view n = (picked i back).view C) (hcpu : s.cpu i = .lockNext curr (some n))
    (hne : curr ≠ some n) :
    Moves C s ((s.setTask n { s.task n with lock := some .self, oncpu := some i }).setCpu i
      (.resume curr (some n))) n (.arrive i back) := by
  apply moves_setTask_setCpu
  · intro u hu
    simp [hcpu, Cpu.role, Ne.symm hu]
  show ({ s.view n with
    own := true, oncpu := some i
    role := update (s.view n).role i (Cpu.role (.resume curr (some n)) n) } : View) = _
  rw [hv]
  simp [view, away, Cpu.role, hne]

/-- Where a task is once its CPU has let it go. -/
def Why.settle (i : Nat) : Why → Stage
  | .sleep k => .asleep i k
  | .yield => .ready i .yield
  | .exit => .dead i

/-- `task_sched_resume` lets go of the task before. -/
theorem moves_settle {next : Option Nat} (hv : s.view p = (left i why).view C)
    (hcpu : s.cpu i = .resume (some p) next) (hne : next ≠ some p) :
    Moves C s ((s.setTask p { s.task p with oncpu := none, lock := none }).setCpu i
      (.resume none next)) p (why.settle i) := by
  apply moves_setTask_setCpu
  · intro u hu
    simp [hcpu, Cpu.role, Ne.symm hu]
  show ({ s.view p with
    own := false, oncpu := none
    role := update (s.view p).role i (Cpu.role (.resume none next) p) } : View) = _
  rw [hv]
  cases why <;>
    simp [view, away, Cpu.role, hne, Why.settle, Why.pc, Why.state, Why.chan, Back.pc]

theorem Back.active (back : Back) : back.pc.active = true := by cases back <;> rfl

/-- The next task goes on in its own code. -/
theorem moves_arrive (hv : s.view n = (arrive i back).view C)
    (hcpu : s.cpu i = .resume none (some n)) :
    Moves C s (s.setCpu i (.run (some n))) n (.exec i back.pc back.active) := by
  refine ⟨?_, fun u hu => ?_⟩
  · rw [view_setCpu, hv]
    cases back <;>
      simp [view, away, Cpu.role, Back.pc, Pc.announced, Pc.owns, Pc.published]
  · apply view_setCpu_of_role
    simp [hcpu, Cpu.role, Ne.symm hu]

/-! ### The wakers -/

/-- A waker takes a sleeper off the sleep queue. -/
theorem moves_wakeUp {c : Nat} (hv : s.view p = (asleep c k).view C)
    (hbefore : (s.waker w).hand = none) (hafter : waker.hand = some p) :
    Moves C s ((s.wakeUp p).setWaker w waker) p (.moving w c k) := by
  have hcount : s.sleepQueue.count p = 1 := congrArg sleeping hv
  refine ⟨?_, fun u hu => ?_⟩
  · rw [view_setWaker, Sys.wakeUp, view_setTask]
    show ({ s.view p with
      state := .running, chan := none, linked := false
      sleeping := (s.sleepQueue.erase p).count p
      hand := update (s.view p).hand w (waker.hand == some p) } : View) = _
    rw [hv, count_erase_self, hcount, hafter]
    ext w'
    all_goals simp [view, away]
    by_cases hw : w' = w
    · simp [hw]
    · simp [hw]
  · rw [view_setWaker_of_eq _ ?_, Sys.wakeUp, view_setTask_of_ne _ _ hu]
    · show ({ s.view u with sleeping := (s.sleepQueue.erase p).count u } : View) = _
      rw [count_erase_of_ne hu]
      rfl
    · simp [Sys.view, Sys.wakeUp, Sys.setTask, hbefore, hafter, Ne.symm hu]

/-- A waker passes the sleeper in its hand to `task_join`, which puts it on one run queue. -/
theorem moves_join {c : Nat} (here target : Nat)
    (hv : s.view p = (moving w c k).view C) (hbefore : (s.waker w).hand = some p)
    (hafter : waker.hand = none) :
    s.taskJoin p here target = s.addTail p target ∧
      Moves C s ((s.addTail p target).setWaker w waker) p (.ready target (.sleep k)) := by
  refine ⟨taskJoin_of_off (congrArg oncpu hv) (congrArg linked hv)
    (congrArg state hv), ?_, fun u hu => ?_⟩
  · rw [view_setWaker, view_addTail, hv, hafter]
    ext w'
    all_goals simp [view, away, Back.pc]
    by_cases hw : w' = w
    · simp [hw]
    · simp [hw]
  · rw [view_setWaker_of_eq _ ?_, view_addTail_of_ne s target hu]
    simp [Sys.view, Sys.addTail, Sys.setTask, hbefore, hafter, Ne.symm hu]

/-- A task is made and put on a run queue. -/
theorem moves_spawn (here target : Nat) (hp : Placed C s t) (hpc : (s.task t).pc = .create) :
    (s.setTask t { s.task t with pc := .start, state := .running }).taskJoin t here target =
        (s.setTask t { s.task t with pc := .start, state := .running }).addTail t target ∧ Moves C s
        ((s.setTask t { s.task t with pc := .start, state := .running }).addTail t target) t
        (.ready target .start) := by
  obtain ⟨c, hv⟩ := hp.unborn hpc
  have hoff : (s.task t).oncpu = none := congrArg oncpu hv
  have hlinked : (s.task t).linked = false := congrArg linked hv
  refine ⟨taskJoin_of_off ?_ ?_ ?_, ?_, fun u hu => ?_⟩
  · simpa [Sys.setTask] using hoff
  · simpa [Sys.setTask] using hlinked
  · simp [Sys.setTask]
  · rw [view_addTail, view_setTask]
    show ({ s.view t with
      pc := .start, state := .running, cpu := target, linked := true
      queued := update (s.view t).queued target ((s.view t).queued target + 1) } :
      View) = _
    rw [hv]
    simp [view, away, Back.pc]
  · rw [view_addTail_of_ne _ _ hu, view_setTask_of_ne _ _ hu]

end Moves

end BrkKernel.Sched
