import BrkKernel.Kern.SchedRun

/-!
# No wakeup is lost

In every interleaving, a condition that is true and has no waker at work has no task asleep on it,
and a sleeper that is taken off the sleep queue ends up on exactly one run queue
(`no_lost_wakeup`).
-/

set_option autoImplicit false

namespace BrkKernel.Sched

variable (C : Conds) {op : Sys.WakeOp} {waker : Waker}

/-- A task that began to sleep on the condition is on the sleep queue. -/
def SleepsOn (s : Sys) (t k : Nat) : Prop :=
  t ∈ s.sleepQueue ∧ (s.task t).pc.sleepsOn = some k

/-- The task is on no queue. -/
def Unqueued (s : Sys) (t : Nat) : Prop := t ∉ s.sleepQueue ∧ ∀ j, t ∉ s.runQueue j

/-- The task is on exactly one run queue, once, and not on the sleep queue. -/
def OnOneRunQueue (s : Sys) (t : Nat) : Prop :=
  t ∉ s.sleepQueue ∧ ∃ j, (s.runQueue j).count t = 1 ∧ ∀ j', j' ≠ j → t ∉ s.runQueue j'

/-- What becomes of a sleeper that is taken off the sleep queue in the state `s`. -/
structure Handover (s : Sys) : Prop where
  /-- whoever leaves the sleep queue is in the hand of a waker -/
  taken : ∀ a s' t, fire C a s = some s' → t ∈ s.sleepQueue → t ∉ s'.sleepQueue →
    ∃ w, (s'.waker w).hand = some t
  /-- a task in the hand of a waker is on no queue, and in the hand of this waker only -/
  held : ∀ w t, (s.waker w).hand = some t →
    Unqueued s t ∧ ∀ w', (s.waker w').hand = some t → w' = w
  /-- until the waker puts it on a run queue -/
  kept : ∀ w t a s', (s.waker w).hand = some t → fire C a s = some s' →
    (s'.waker w).hand = some t ∨ OnOneRunQueue s' t
  /-- which it can do at any moment, with no assertion of `task_join` in its way -/
  joins : ∀ w t here target, (s.waker w).hand = some t →
    ∃ s', fire C (.wake w (.join here target)) s = some s' ∧ s'.panicked = false ∧
      OnOneRunQueue s' t
  /-- a task on a run queue is on no other queue -/
  queued : ∀ t j, t ∈ s.runQueue j → OnOneRunQueue s t

/-! ## What the actions leave alone -/

/-- The wakers are where they were, and nobody has left the sleep queue. -/
def Aside (s s' : Sys) : Prop := s'.waker = s.waker ∧ s.sleepQueue ⊆ s'.sleepQueue

section Frame

variable {C} {s s' mid : Sys} {i t u w k here target p : Nat}

theorem Aside.refl (s : Sys) : Aside s s := ⟨rfl, List.Subset.refl _⟩

theorem aside_assert (c : Bool) (h : Aside s s') : Aside s (s'.assert c) := by
  unfold Sys.assert
  split
  · exact h
  · exact h

theorem aside_advance (h : s.advance C i t = some s') : Aside s s' := by
  generalize hpc : (s.task t).pc = pc
  simp only [Sys.advance, hpc] at h
  cases pc with
  | create | user | inside => cases h
  | start | yield | release | asleep | exit =>
    obtain rfl := Option.some.inj h
    exact .refl s
  | test k =>
    dsimp only at h
    split at h
    · obtain rfl := Option.some.inj h
      exact .refl s
    split at h
    · obtain rfl := Option.some.inj h
      exact aside_assert _ (.refl s)
    · cases h
  | enqueue k =>
    -- the task puts itself on the queue
    obtain ⟨-, rfl⟩ := Lib.guard_eq_some h
    exact ⟨rfl, List.subset_append_left _ _⟩
  | relock k =>
    obtain ⟨-, rfl⟩ := Lib.guard_eq_some h
    exact .refl s

theorem aside_runTask {op : Sys.TaskOp} (h : s.runTask C i t op = some s') : Aside s s' := by
  cases op with
  | advance => exact aside_advance h
  | clear | unlock =>
    obtain ⟨k, _, rfl⟩ := Option.map_eq_some_iff.1 h
    exact .refl s
  | lock | yield | exit =>
    obtain ⟨-, rfl⟩ := Lib.guard_eq_some h
    exact .refl s

theorem aside_taskJoin (h : Aside s s') : Aside s (s'.taskJoin t here target) := aside_assert _ h

theorem aside_schedCurr : Aside s (s.schedCurr i t) := by
  have hcheck : Aside s (s.assert ((s.task t).lock.isSome && (s.task t).oncpu = some i)) :=
    aside_assert _ (.refl s)
  simp only [Sys.schedCurr]
  cases (s.task t).state with
  | running => exact aside_taskJoin hcheck
  | zombie | sleeping => exact hcheck
  | new => exact hcheck

theorem aside_taskSched (h : s.taskSched i = some s') : Aside s s' := by
  unfold Sys.taskSched at h
  split at h
  next => cases h
  next =>
    obtain rfl := Option.some.inj h
    exact .refl s
  next =>
    obtain rfl := Option.some.inj h
    exact aside_schedCurr
  next =>
    obtain rfl := Option.some.inj h
    unfold Sys.pickNext
    split
    · exact .refl s
    · exact aside_assert _ (.refl s)
  next curr next hcpu =>
    cases next with
    | none =>
      obtain rfl := Option.some.inj h
      exact .refl s
    | some n =>
      obtain ⟨-, rfl⟩ := Lib.guard_eq_some h
      exact aside_assert _ (.refl s)
  next prev next hcpu =>
    obtain rfl := Option.some.inj h
    cases prev with
    | none => exact .refl s
    | some p => exact .refl s

theorem aside_spawn (h : s.spawn t here target = some s') : Aside s s' := by
  obtain ⟨-, rfl⟩ := Lib.guard_eq_some h
  exact aside_taskJoin (.refl s)

/-- What the waker `w` can do to the sleep queue and the wakers: it takes at most one task off the
queue, into its own hand, and leaves the other wakers alone. -/
structure WakerStep (s s' : Sys) (w : Nat) : Prop where
  others : ∀ v, v ≠ w → s'.waker v = s.waker v
  queue : s'.sleepQueue = s.sleepQueue ∨
    ∃ p, s'.sleepQueue = s.sleepQueue.erase p ∧ (s'.waker w).hand = some p

open WakerStep Sys Option

/-- A step that only changes the waker, locks, conditions and tasks. -/
theorem WakerStep.of_setWaker {p : Waker} (hw : mid.waker = s.waker)
    (hq : mid.sleepQueue = s.sleepQueue) : WakerStep s (mid.setWaker w p) w where
  others v hv := by simp [setWaker, hv, hw]
  queue := .inl hq

theorem WakerStep.of_wakeUp (hw : mid.waker = s.waker)
    (hq : mid.sleepQueue = s.sleepQueue.erase p) (hhand : waker.hand = some p) :
    WakerStep s (mid.setWaker w waker) w where
  others v hv := by simp [setWaker, hv, hw]
  queue := .inr ⟨p, hq, by simpa [setWaker] using hhand⟩

theorem wakerStep_join : WakerStep s ((s.taskJoin t here target).setWaker w waker) w := by
  unfold taskJoin assert
  dsimp only
  split
  · exact of_setWaker rfl rfl
  · exact of_setWaker rfl rfl

theorem wakerStep_visit {held retry : Bool} {rest : List Nat} :
    WakerStep s (s.wakeVisit C w k held p rest retry) w := by
  unfold wakeVisit
  dsimp only
  split
  · exact of_setWaker rfl rfl
  · split
    · exact of_setWaker rfl rfl
    · exact of_wakeUp rfl rfl rfl

theorem wakerStep_seek : WakerStep s (s.wakeSeek w t) w := by
  unfold wakeSeek
  split
  · exact of_setWaker rfl rfl
  · split
    · exact ⟨fun _ _ => rfl, .inl rfl⟩
    · exact of_wakeUp rfl rfl rfl

theorem wakerStep_runWaker (h : s.runWaker C w op = some s') : WakerStep s s' w := by
  unfold runWaker at h
  -- the actions that wait for a lock are enabled only while it is free
  split at h
  next k hw =>
    obtain ⟨-, rfl⟩ := Lib.guard_eq_some h
    exact of_setWaker rfl rfl
  next t hw =>
    obtain rfl := some.inj h
    exact of_setWaker rfl rfl
  next t hw =>
    obtain ⟨-, rfl⟩ := Lib.guard_eq_some h
    exact of_setWaker rfl rfl
  next k hw =>
    obtain rfl := some.inj h
    exact ⟨fun _ _ => rfl, .inl rfl⟩
  iterate 3
    next k hw =>
      obtain rfl := some.inj h
      exact of_setWaker rfl rfl
  next k held hw =>
    obtain ⟨-, rfl⟩ := Lib.guard_eq_some h
    exact of_setWaker rfl rfl
  next k held p rest retry hw =>
    obtain rfl := some.inj h
    exact wakerStep_visit
  next k held retry hw =>
    obtain rfl := some.inj h
    exact of_setWaker rfl rfl
  next k held p here target hw =>
    obtain rfl := some.inj h
    exact wakerStep_join
  next t hw =>
    obtain ⟨-, rfl⟩ := Lib.guard_eq_some h
    exact wakerStep_seek
  next t here target hw =>
    obtain rfl := some.inj h
    exact wakerStep_join
  next t hw =>
    obtain rfl := some.inj h
    exact of_setWaker rfl rfl
  next => cases h

/-- An action is one of the CPUs' or one of a waker's. -/
theorem aside_or_waker {a : Action} (h : fire C a s = some s') :
    Aside s s' ∨ ∃ w op, a = .wake w op ∧ s.runWaker C w op = some s' := by
  unfold fire at h
  split at h
  · cases h
  cases a with
  | run i op =>
    left
    replace h : s.runCurrent C i op = some s' := h
    unfold runCurrent at h
    split at h
    · exact aside_runTask h
    · obtain rfl := some.inj h
      exact .refl s
    · cases h
  | sched i => exact .inl (aside_taskSched h)
  | wake w op => exact .inr ⟨w, op, rfl, h⟩
  | spawn t here target => exact .inl (aside_spawn h)

end Frame

/-! ## The result -/

section Result

variable {C} {s s' : Sys} {t w j : Nat}

theorem unqueued_of_hand (h : Inv C s) (hhand : (s.waker w).hand = some t) : Unqueued s t := by
  obtain ⟨c, k, hv⟩ := (h.placed t).moving hhand
  refine ⟨not_mem_sleepQueue (congrArg View.sleeping hv), fun j => ?_⟩
  exact List.count_eq_zero.1 (congrFun (congrArg View.queued hv) j)

theorem hand_unique (h : Inv C s) (hhand : (s.waker w).hand = some t) {v : Nat}
    (hv : (s.waker v).hand = some t) : v = w := by
  obtain ⟨c, k, hview⟩ := (h.placed t).moving hhand
  have hboth : ((s.waker v).hand == some t) = (v == w) := congrFun (congrArg View.hand hview) v
  simpa [hv] using hboth

theorem onOneRunQueue_of_view {v : View} (hv : s.view t = v) (hsleep : v.sleeping = 0)
    (hqueued : v.queued = onceAt j) : OnOneRunQueue s t := by
  have hcount : ∀ j', (s.runQueue j').count t = onceAt j j' := fun j' =>
    (congrFun (congrArg View.queued hv) j').trans (congrFun hqueued j')
  refine ⟨not_mem_sleepQueue ((congrArg View.sleeping hv).trans hsleep), j, ?_, fun j' hj => ?_⟩
  · rw [hcount]
    simp [onceAt]
  · exact List.count_eq_zero.1 (by rw [hcount]; simp [onceAt, hj])

theorem onOneRunQueue_of_mem (h : Inv C s) (hmem : t ∈ s.runQueue j) : OnOneRunQueue s t := by
  rcases (h.placed t).queued hmem with ⟨back, hv⟩ | hv
  · exact onOneRunQueue_of_view hv rfl rfl
  · exact onOneRunQueue_of_view hv rfl rfl

/-- `task_join` of the task in the hand of a waker. -/
theorem join_of_hand (h : Inv C s) (hhand : (s.waker w).hand = some t) (here target : Nat) :
    ∃ s', fire C (.wake w (.join here target)) s = some s' ∧ s'.panicked = false ∧
      OnOneRunQueue s' t := by
  have hview : ∀ waker : Waker, waker.hand = none →
      ((s.taskJoin t here target).setWaker w waker).panicked = false ∧
        OnOneRunQueue ((s.taskJoin t here target).setWaker w waker) t := by
    intro waker hout
    obtain ⟨c, k, hv⟩ := (h.placed t).moving hhand
    obtain ⟨hjoin, hm⟩ := moves_join here target hv hhand hout
    rw [hjoin]
    exact ⟨h.alive, onOneRunQueue_of_view hm.1 rfl rfl⟩
  cases hw : s.waker w with
  | join k held p =>
    obtain rfl : p = t := by simpa [hw, Waker.hand] using hhand
    exact ⟨_, by simp [fire, h.alive, Sys.runWaker, hw], hview (.wake k held) rfl⟩
  | specJoin p =>
    obtain rfl : p = t := by simpa [hw, Waker.hand] using hhand
    exact ⟨_, by simp [fire, h.alive, Sys.runWaker, hw], hview .out rfl⟩
  | out | holds | wake | scan | spec | peek =>
    rw [hw] at hhand
    cases hhand

/-- The only thing a waker does with a task in its hand is to put it on a run queue. -/
theorem op_of_hand (hhand : (s.waker w).hand = some t)
    (h : s.runWaker C w op = some s') : ∃ here target, op = .join here target := by
  cases hw : s.waker w with
  | join k held p | specJoin p =>
    cases op with
    | join here target => exact ⟨here, target, rfl⟩
    | lock | clear | set | drop | unlock | scan | visit | finish | spec | seek | peek | unpeek =>
      simp [Sys.runWaker, hw] at h
  | out | holds | wake | scan | spec | peek =>
    rw [hw] at hhand
    cases hhand

theorem handover (h : Inv C s) : Handover C s where
  taken a s' t hfire hin hout := by
    rcases aside_or_waker hfire with ⟨_, hsub⟩ | ⟨w, op, rfl, hstep⟩
    · exact absurd (hsub hin) hout
    refine ⟨w, ?_⟩
    rcases (wakerStep_runWaker hstep).queue with hq | ⟨p, hq, hhand⟩
    · exact absurd (hq ▸ hin) hout
    have hp : p = t := by
      by_contra hne
      exact hout (hq ▸ (List.mem_erase_of_ne (Ne.symm hne)).2 hin)
    rw [← hp]
    exact hhand
  held w t hhand := ⟨unqueued_of_hand h hhand, fun _ hv => hand_unique h hhand hv⟩
  kept w t a s' hhand hfire := by
    rcases aside_or_waker hfire with ⟨hw, _⟩ | ⟨v, op, rfl, hstep⟩
    · left
      rw [hw]
      exact hhand
    by_cases hvw : w = v
    · subst hvw
      obtain ⟨here, target, rfl⟩ := op_of_hand hhand hstep
      obtain ⟨s'', hfire', _, hone⟩ := join_of_hand h hhand here target
      obtain rfl : s' = s'' := Option.some.inj (hfire.symm.trans hfire')
      exact .inr hone
    · left
      rw [(wakerStep_runWaker hstep).others w hvw]
      exact hhand
  joins w t here target hhand := join_of_hand h hhand here target
  queued t j hmem := onOneRunQueue_of_mem h hmem

end Result

/-- **Sleep and wakeup lose no wakeup.** Let the conditions, their channels and their locks be
arbitrary. In every state that tasks, CPUs and wakers can reach, a condition that is true while no
waker is between the store that makes it true and the end of its `task_wake_all` has no task asleep
on it; and a sleeper that is taken off the sleep queue is put on exactly one run queue. -/
theorem no_lost_wakeup {cond : Nat → Bool} {s : Sys} (hrun : Reachable C cond s) :
    (∀ k, s.cond k = true → (∀ w, (s.waker w).waking ≠ some k) → ∀ t, ¬ SleepsOn s t k) ∧
      Handover C s := by
  have h := inv_of_reachable C hrun
  refine ⟨fun k hcond hdone t hsleeps => ?_, handover h⟩
  obtain ⟨w, hw⟩ := h.core.woken k t hcond hsleeps.1 hsleeps.2
  exact hdone w hw

/-- Every condition with a channel and a lock of its own. -/
def ownConds : Conds := ⟨fun k => k, fun k => k⟩

/-- One task goes to sleep on CPU 0, and a waker finds it before CPU 0 has left it: the first scan
meets the task's lock, the second one takes the task, which then goes to CPU 1. -/
def racingWakeup : List Action :=
  [.spawn 0 0 0, .run 0 .yield, .sched 0, .sched 0, .sched 0, .sched 0, .run 0 .advance,
    .run 0 (.lock 0), .run 0 .advance, .run 0 .advance, .run 0 .advance,
    .wake 0 (.lock 0), .wake 0 .set, .wake 0 .drop, .wake 0 .scan, .wake 0 .visit, .wake 0 .finish,
    .sched 0, .sched 0, .sched 0, .sched 0,
    .wake 0 .scan, .wake 0 .visit, .wake 0 (.join 0 1), .wake 0 .scan, .wake 0 .finish]

/-- The state at the end of this run. -/
def afterRace : Sys :=
  (fireAll ownConds racingWakeup (boot fun _ => false)).getD (boot fun _ => false)

theorem reachable_afterRace : Reachable ownConds (fun _ => false) afterRace := by
  refine run_of_fireAll ownConds racingWakeup ?_
  rfl

theorem no_lost_wakeup_afterRace :
    Reachable ownConds (fun _ => false) afterRace ∧ afterRace.cond 0 = true ∧
      OnOneRunQueue afterRace 0 := by
  refine ⟨reachable_afterRace, by decide +kernel, ?_⟩
  exact (no_lost_wakeup ownConds reachable_afterRace).2.queued 0 1 (by decide +kernel)

/-- In every reachable state no assertion of the scheduler has failed, no task is in the hands of
two CPUs, and a task that runs is on no run queue. -/
theorem one_cpu_per_task {cond : Nat → Bool} {s : Sys} (hrun : Reachable C cond s) :
    s.panicked = false ∧
      (∀ t i j, (s.cpu i).role t ≠ .absent → (s.cpu j).role t ≠ .absent → i = j) ∧
      ∀ t i, s.cpu i = .run (some t) → (s.task t).oncpu = some i ∧ ∀ j, t ∉ s.runQueue j := by
  have h := inv_of_reachable C hrun
  refine ⟨h.alive, fun t i j hi hj => ?_, fun t i hcpu => ?_⟩
  · obtain ⟨st, hst⟩ := h.placed t
    have hrole : ∀ k, (s.cpu k).role t = (st.view C).role k := congrFun (congrArg View.role hst)
    rw [hrole] at hi hj
    exact Stage.role_unique hi hj
  · obtain ⟨hpc, hv⟩ := (h.placed t).exec hcpu
    exact ⟨congrArg View.oncpu hv, fun j =>
      List.count_eq_zero.1 (congrFun (congrArg View.queued hv) j)⟩

theorem one_cpu_per_task_afterRace : Reachable ownConds (fun _ => false) afterRace ∧
    afterRace.panicked = false :=
  ⟨reachable_afterRace, (one_cpu_per_task ownConds reachable_afterRace).1⟩

end BrkKernel.Sched
