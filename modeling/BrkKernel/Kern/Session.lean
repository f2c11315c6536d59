import BrkKernel.Kern.Base
import BrkKernel.Lib.Actors

/-!
# Process groups and sessions

The numbers of `struct task` that say where a task belongs, the list of tasks, and the calls that
change them: `task_fork`, `task_exit`, `sys_setpgid` and `sys_setsid`. A task that has exited stays
on the list, where `task_pgrp_exists` still finds it, until it is reaped.

`sys_setsid` refuses a caller that is in the group of its own number, but not one that has left this
group while others are still in it: the group is then in two sessions (`group_in_two_sessions`).
Without such calls, every group stays in one session (`groups_in_sessions`).
-/

set_option autoImplicit false

namespace BrkKernel.Session

open Lib

structure Task where
  pid : Int
  tgid : Int
  pgid : Int
  sid : Int
  zombie : Bool
deriving DecidableEq

/-- `curr_pid` and `tasks`. -/
structure Sys where
  currPid : Int
  tasks : List Task
deriving DecidableEq

/-- `pid_alloc`. The counter is an `int`. -/
def pidAlloc (s : Sys) : Int × Sys :=
  (s.currPid, { s with currPid := (s.currPid + 1).bmod (2 ^ 32) })

/-- `task_create` for `task_fork`, and what fails in it after `pid_alloc`. -/
def taskCreate (s : Sys) (pgid sid : Int) (fail : Option Errno) : Except Errno Task × Sys :=
  let (pid, s) := pidAlloc s
  if pid < 0 then (.error .enomem, s)
  else
    match fail with
    | some e => (.error e, s)
    | none =>
      let task : Task :=
        ⟨pid, pid, if pgid ≠ 0 then pgid else pid, if sid ≠ 0 then sid else pid, false⟩
      (.ok task, { s with tasks := s.tasks ++ [task] })

/-- `task_fork`. A child whose memory cannot be copied is destroyed. -/
def taskFork (s : Sys) (parent : Task) (fail copyFail : Option Errno) : Except Errno Int × Sys :=
  match taskCreate s parent.pgid parent.sid fail with
  | (.error e, s') => (.error e, s')
  | (.ok child, s') =>
    match copyFail with
    | some e => (.error e, { s' with tasks := s.tasks })
    | none => (.ok child.tgid, s')

/-- `task_pgrp_exists`. -/
def taskPgrpExists (s : Sys) (pgid sid : Int) : Bool :=
  decide (0 < pgid) && s.tasks.any fun p => p.pgid == pgid && p.sid == sid

/-- `sys_setpgid`, with the caller as it leaves it. -/
def sysSetpgid (s : Sys) (task : Task) (pid pgid : Int) : Except Errno Task :=
  if pid ≠ 0 ∧ pid ≠ task.tgid then .error .esrch
  else if pgid < 0 then .error .einval
  else
    let pgid := if pgid = 0 then task.pid else pgid
    if task.sid = task.pid then .error .eperm
    else if pgid ≠ task.pid ∧ ¬ taskPgrpExists s pgid task.sid then .error .eperm
    else .ok { task with pgid := pgid }

/-- `sys_setsid`, with the caller as it leaves it. -/
def sysSetsid (task : Task) : Except Errno Task :=
  if task.pgid = task.pid then .error .eperm
  else .ok { task with sid := task.pid, pgid := task.pid }

/-- What a task does, or, for `reap`, what its parent does to it. -/
inductive Act where
  | fork (fail copyFail : Option Errno)
  | exit
  | setpgid (pid pgid : Int)
  | setsid
  | reap
deriving DecidableEq

def Sys.put (s : Sys) (i : Nat) : Except Errno Task → Sys
  | .error _ => s
  | .ok t => { s with tasks := s.tasks.set i t }

/-- The act of the task `t` at place `i` of the list. -/
def Act.exec (s : Sys) (i : Nat) (t : Task) : Act → Sys
  | .fork fail copyFail => (taskFork s t fail copyFail).2
  | .exit => s.put i (.ok { t with zombie := true })
  | .setpgid pid pgid => s.put i (sysSetpgid s t pid pgid)
  | .setsid => s.put i (sysSetsid t)
  | .reap => { s with tasks := s.tasks.eraseIdx i }

/-- A task acts until it exits, and is reaped after that. -/
def Step (s s' : Sys) : Prop :=
  ∃ i t a, s.tasks[i]? = some t ∧ t.zombie = decide (a = Act.reap) ∧ a.exec s i t = s'

/-- A new task does not get the number of the session it is born in, or none; a task makes a group
of its own number only if no other session has that group, and a session only if no task at all
has it. -/
def Act.Orderly (s : Sys) (t : Task) : Act → Prop
  | .fork none none => s.currPid ≠ 0 ∧ s.currPid ≠ t.sid
  | .setpgid _ pgid => pgid = 0 ∨ pgid = t.pid → ∀ q ∈ s.tasks, q.pgid = t.pid → q.sid = t.sid
  | .setsid => ∀ q ∈ s.tasks, q.pgid = t.pid → t.pgid = t.pid
  | _ => True

def OrderlyStep (s s' : Sys) : Prop :=
  ∃ i t a, s.tasks[i]? = some t ∧ t.zombie = decide (a = Act.reap) ∧ a.Orderly s t ∧
    a.exec s i t = s'

/-- The first process. -/
def boot (pid : Int) : Sys := (taskCreate ⟨pid, []⟩ 0 0 none).2

/-- The tasks that have not exited. -/
def Sys.live (s : Sys) : List Task := s.tasks.filter fun t => !t.zombie

/-- Every group is in one session, and the leader of a session is in the group of its number. -/
structure Confined (ts : List Task) : Prop where
  session : ∀ p ∈ ts, ∀ q ∈ ts, p.pgid = q.pgid → p.sid = q.sid
  leader : ∀ p ∈ ts, p.sid = p.pid → p.pgid = p.pid

/-- A task agrees with the tasks on the list, those that have exited included. None of its numbers
is `0`, which stands for an absent one. -/
structure Fits (ts : List Task) (t : Task) : Prop where
  session : ∀ q ∈ ts, q.pgid = t.pgid → q.sid = t.sid
  leader : t.sid = t.pid → t.pgid = t.pid
  pos : 0 < t.pid ∧ 0 < t.pgid ∧ 0 < t.sid

def Inv (ts : List Task) : Prop := ∀ t ∈ ts, Fits ts t

section Steps

variable {s s' : Sys} {ts ts' : List Task} {t t' : Task} {i : Nat}

/-- A task that fits comes in, or takes the place of another. -/
theorem Inv.change (h : Inv ts) (ht : Fits ts t) (hmem : ∀ p ∈ ts', p ∈ ts ∨ p = t) : Inv ts' := by
  intro p hp
  rcases hmem p hp with hp | rfl
  · refine ⟨fun q hq hqp => ?_, (h p hp).leader, (h p hp).pos⟩
    rcases hmem q hq with hq | rfl
    · exact (h p hp).session q hq hqp
    · exact (ht.session p hp hqp.symm).symm
  · refine ⟨fun q hq hqp => ?_, ht.leader, ht.pos⟩
    rcases hmem q hq with hq | rfl
    · exact ht.session q hq hqp
    · rfl

theorem Inv.put (h : Inv s.tasks) {r : Except Errno Task}
    (hr : ∀ t, r = .ok t → Fits s.tasks t) : Inv (s.put i r).tasks := by
  cases r with
  | error e => exact h
  | ok t => exact h.change (hr t rfl) fun p hp => List.mem_or_eq_of_mem_set hp

theorem Inv.fork (h : Inv s.tasks) (ht : Fits s.tasks t) {fail copyFail : Option Errno}
    (hord : (Act.fork fail copyFail).Orderly s t) : Inv (taskFork s t fail copyFail).2.tasks := by
  unfold taskFork taskCreate pidAlloc
  by_cases hneg : s.currPid < 0
  · simpa [hneg] using h
  cases fail with
  | some e => simpa [hneg] using h
  | none =>
    cases copyFail with
    | some e => simpa [hneg] using h
    | none =>
      obtain ⟨-, hpgid, hsid⟩ := ht.pos
      obtain ⟨hzero, hne⟩ := hord
      -- the child has the group and the session of its parent
      simp only [hneg, if_false, if_pos hpgid.ne', if_pos hsid.ne']
      have hchild : Fits s.tasks ⟨s.currPid, s.currPid, t.pgid, t.sid, false⟩ :=
        ⟨ht.session, fun hl => absurd hl.symm hne, by dsimp only; omega, hpgid, hsid⟩
      refine h.change hchild fun p hp => ?_
      rwa [List.mem_append, List.mem_singleton] at hp

/-- `sys_setpgid` takes a caller that leads no session to the group of its own number, or to one
that a task of its session is in. -/
theorem Fits.setpgid (ht : Fits s.tasks t) (h : Inv s.tasks) {pid pgid : Int}
    (hord : (Act.setpgid pid pgid).Orderly s t) (hok : sysSetpgid s t pid pgid = .ok t') :
    Fits s.tasks t' := by
  obtain ⟨hpid, -, hsid⟩ := ht.pos
  simp only [sysSetpgid] at hok
  generalize hg : (if pgid = 0 then t.pid else pgid) = g at hok
  split_ifs at hok with hself hneg hlead hgroup
  cases hok
  by_cases hown : g = t.pid
  · have hcall : pgid = 0 ∨ pgid = t.pid := by grind
    exact ⟨fun q hq hqg => hord hcall q hq (hqg.trans hown), fun hl => absurd hl hlead,
      hpid, hown ▸ hpid, hsid⟩
  have hexists := not_not.mp fun hno => hgroup ⟨hown, hno⟩
  simp only [taskPgrpExists, Bool.and_eq_true, decide_eq_true_eq, List.any_eq_true,
    beq_iff_eq] at hexists
  obtain ⟨hpos, p, hp, hpg, hps⟩ := hexists
  refine ⟨fun q hq hqg => ?_, fun hl => absurd hl hlead, hpid, hpos, hsid⟩
  exact ((h p hp).session q hq (hqg.trans hpg.symm)).trans hps

theorem Fits.setsid (ht : Fits s.tasks t) (hord : Act.setsid.Orderly s t)
    (hok : sysSetsid t = .ok t') : Fits s.tasks t' := by
  unfold sysSetsid at hok
  split at hok
  · cases hok
  next hne =>
    cases hok
    exact ⟨fun q hq hqt => absurd (hord q hq hqt) hne, fun _ => rfl, ht.pos.1, ht.pos.1, ht.pos.1⟩

theorem OrderlyStep.inv (hstep : OrderlyStep s s') (h : Inv s.tasks) : Inv s'.tasks := by
  obtain ⟨i, t, a, hi, -, hord, rfl⟩ := hstep
  have ht := h t (List.mem_of_getElem? hi)
  cases a with
  | fork fail copyFail => exact h.fork ht hord
  | exit =>
    apply h.put
    rintro _ ⟨rfl⟩
    exact ⟨ht.session, ht.leader, ht.pos⟩
  | setpgid pid pgid => exact h.put fun t' => ht.setpgid h hord
  | setsid => exact h.put fun t' => ht.setsid hord
  | reap => exact h.change ht fun p hp => .inl (List.mem_of_mem_eraseIdx hp)

end Steps

theorem inv_boot {pid : Int} (hpid : 0 < pid) : Inv (boot pid).tasks := by
  have hboot : (boot pid).tasks = [⟨pid, pid, pid, pid, false⟩] := by
    simp [boot, taskCreate, pidAlloc, not_lt_of_gt hpid]
  rw [hboot]
  intro t ht
  obtain rfl := List.mem_singleton.mp ht
  refine ⟨fun q hq _ => ?_, fun _ => rfl, hpid, hpid, hpid⟩
  rw [List.mem_singleton.mp hq]

/-- Along every run of orderly calls, each process group is in one session, and the leader of a
session is in the group of its number. -/
theorem groups_in_sessions (pid : Int) (hpid : 0 < pid) (s : Sys)
    (hrun : Run OrderlyStep (boot pid) s) : Confined s.live := by
  have h : Inv s.tasks :=
    hrun.invariant (P := fun s => Inv s.tasks) (fun _ _ hstep => hstep.inv) (inv_boot hpid)
  have hsub : ∀ p ∈ s.live, p ∈ s.tasks := fun p hp => (List.mem_filter.mp hp).1
  exact ⟨fun p hp q hq => (h q (hsub q hq)).session p (hsub p hp),
    fun p hp => (h p (hsub p hp)).leader⟩

/-- A child of the first process makes a session. -/
theorem groups_in_sessions_child :
    Run OrderlyStep (boot 1) ⟨3, [⟨1, 1, 1, 1, false⟩, ⟨2, 2, 2, 2, false⟩]⟩ ∧
      Confined (Sys.live ⟨3, [⟨1, 1, 1, 1, false⟩, ⟨2, 2, 2, 2, false⟩]⟩) := by
  have hrun : Run OrderlyStep (boot 1) ⟨3, [⟨1, 1, 1, 1, false⟩, ⟨2, 2, 2, 2, false⟩]⟩ := by
    refine .tail (.single ⟨0, ⟨1, 1, 1, 1, false⟩, .fork none none, rfl, rfl, ?_, rfl⟩)
      ⟨1, ⟨2, 2, 1, 1, false⟩, .setsid, rfl, rfl, ?_, rfl⟩
    · exact ⟨by decide, by decide⟩
    · unfold Act.Orderly
      decide
  exact ⟨hrun, groups_in_sessions 1 (by decide) _ hrun⟩

/-- A task `2` makes a group, forks a child into it, goes back to the group of the first process and
then makes a session: its child is still in the group `2`, but in the session `1`. -/
theorem group_in_two_sessions : ∃ s, Run Step (boot 1) s ∧ ¬ Confined s.live := by
  refine ⟨⟨4, [⟨1, 1, 1, 1, false⟩, ⟨2, 2, 2, 2, false⟩, ⟨3, 3, 2, 1, false⟩]⟩, ?_, fun h => ?_⟩
  · refine .tail (.tail (.tail (.tail (.single
      ⟨0, ⟨1, 1, 1, 1, false⟩, .fork none none, rfl, rfl, rfl⟩)
      ⟨1, ⟨2, 2, 1, 1, false⟩, .setpgid 0 0, rfl, rfl, rfl⟩)
      ⟨1, ⟨2, 2, 2, 1, false⟩, .fork none none, rfl, rfl, rfl⟩)
      ⟨1, ⟨2, 2, 2, 1, false⟩, .setpgid 0 1, rfl, rfl, rfl⟩)
      ⟨1, ⟨2, 2, 1, 1, false⟩, .setsid, rfl, rfl, rfl⟩
  · exact absurd (h.session ⟨2, 2, 2, 2, false⟩ (by decide) ⟨3, 3, 2, 1, false⟩ (by decide) rfl)
      (by decide)

end BrkKernel.Session
