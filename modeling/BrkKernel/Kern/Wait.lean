import BrkKernel.Kern.Base
import BrkKernel.Lib.Fair
import BrkKernel.Lib.Actors

/-!
# Waiting for a child

`task_wait` of `kern/sched.c` in a parent, and `task_exit` with the hand-over of the CPU in its
children, on any number of CPUs. A step is a section under one of the innermost locks: the parent
looks at one child under `child->lock`, puts itself on the sleep queue under `sleep_queue_lock`, and
a child becomes a zombie under its own lock, which only `task_sched_resume` in the next task drops.
`wait_lock` is held by the parent from its first look at a child until it is on the sleep queue, but
`task_sched_resume` and the `task_wake_spec` after it do not take this lock. `Kern.WaitSched`
matches these sections with those of the scheduler.

`wait_returns` says that on every fair trace `task_wait` returns once a matching child is a zombie
off its CPU, provided that no child sends its wakeup between the parent's look at this child and the
parent's entry on the sleep queue. `wait_lost_wakeup` is a fair trace on which this happens, and the
parent sleeps forever.
-/

set_option autoImplicit false

namespace BrkKernel.Kern

open Lib Function

/-- `task->state`. -/
inductive TaskState where
  | running | sleeping | zombie
deriving DecidableEq, Repr

/-- Where a child is. -/
inductive ChildPc where
  | running
  /-- Past the section of `task_exit` under `wait_lock`. -/
  | exiting (status : Nat)
  /-- In `task_sched` as a zombie, with its own lock held. -/
  | switching
  /-- `task_sched_resume` has let go of it and is about to wake the parent. -/
  | handedOff
  | gone
deriving DecidableEq, Repr

/-- The fields of a child's `struct task` that `task_wait` reads. -/
structure Child where
  tgid : Nat
  state : TaskState
  onCpu : Bool
  locked : Bool
  exitStatus : Nat
  pc : ChildPc
deriving DecidableEq

/-- What `task_wait` returns: a process id and the exit status, or an error. -/
abbrev WaitResult := Except Errno (Nat × Nat)

/-- Where the parent is in `task_wait`. -/
inductive ParentPc where
  | enter
  /-- In the loop over the children, with `wait_lock`. -/
  | scan (rest : List Nat) (found : Bool)
  /-- Past the loop, about to enter `task_sleep`, with `wait_lock`. -/
  | sleepy
  /-- On the sleep queue and in `task_sched`, with its own lock held. -/
  | switching
  | asleep
  /-- Taken from the sleep queue, about to take `wait_lock` again. -/
  | woken
  | done (r : WaitResult)

/-- A parent in `task_wait(pid)` and its children. `kids` are all tasks that were children when the
call began, `children` the list of those not yet reaped. -/
structure WaitSys where
  pid : Int
  nowait : Bool
  kids : List Nat
  child : Nat → Child
  children : List Nat
  parentState : TaskState
  parentLocked : Bool
  queued : Bool
  pc : ParentPc

open WaitSys

/-- `pid > 0 && child->tgid != pid` does not hold. -/
def Matches (pid : Int) (c : Child) : Prop := 0 < pid → (c.tgid : Int) = pid

instance (pid : Int) (c : Child) : Decidable (Matches pid c) :=
  inferInstanceAs (Decidable (0 < pid → _))

/-- The child may be reaped: the loop of `task_wait` does not skip it. -/
def Ready (pid : Int) (c : Child) : Prop := c.state = .zombie ∧ c.onCpu = false ∧ Matches pid c

instance (pid : Int) (c : Child) : Decidable (Ready pid c) :=
  inferInstanceAs (Decidable (_ ∧ _ ∧ _))

/-- The parent holds `wait_lock`. -/
def ParentPc.holdsWaitLock : ParentPc → Bool
  | .scan _ _ | .sleepy => true
  | _ => false

def WaitSys.setChild (s : WaitSys) (c : Nat) (t : Child) : WaitSys :=
  { s with child := update s.child c t }

/-- One round of the loop of `task_wait`, under the lock of the child. -/
def waitScan (s : WaitSys) (c : Nat) (rest : List Nat) (found : Bool) : WaitSys :=
  if Ready s.pid (s.child c) then
    { s with pc := .done (.ok ((s.child c).tgid, (s.child c).exitStatus))
             children := if s.nowait then s.children else s.children.erase c }
  else { s with pc := .scan rest (found || (0 < s.pid && (s.child c).tgid == s.pid)) }

/-- The next section of `task_wait`; none while the parent waits for a lock or sleeps. -/
def parentStep (s : WaitSys) : Option WaitSys :=
  match s.pc with
  | .enter =>
    if s.children = [] then some { s with pc := .done (.error .echild) }
    else some { s with pc := .scan s.children false }
  | .scan [] found =>
    if 0 < s.pid ∧ found = false then some { s with pc := .done (.error .echild) }
    else some { s with pc := .sleepy }
  | .scan (c :: rest) found =>
    if (s.child c).locked then none else some (waitScan s c rest found)
  | .sleepy =>
    some { s with parentState := .sleeping, parentLocked := true, queued := true, pc := .switching }
  | .switching => some { s with parentLocked := false, pc := .asleep }
  | .asleep => none
  | .woken => some { s with pc := .scan s.children false }
  | .done _ => none

/-- `task_wake_spec(parent)`. It tries again while it finds the parent with its lock held. -/
def taskWakeSpec (s : WaitSys) : Option WaitSys :=
  if s.queued ∧ s.parentState = .sleeping then
    if s.parentLocked then none
    else some { s with parentState := .running, queued := false, pc := .woken }
  else some s

/-- The section of `task_exit` under `wait_lock`; a child of this model has no children. -/
def exitStep (s : WaitSys) (c status : Nat) : Option WaitSys :=
  if c ∈ s.kids ∧ (s.child c).pc = .running ∧ s.pc.holdsWaitLock = false then
    some (s.setChild c { s.child c with pc := .exiting status })
  else none

/-- The next section of a child in `task_exit`, and of the task after it on its CPU. -/
def childStep (s : WaitSys) (c : Nat) : Option WaitSys :=
  if c ∈ s.kids then
    match (s.child c).pc with
    | .running => none
    | .exiting status =>
      if (s.child c).locked then none
      else some (s.setChild c { s.child c with state := .zombie, exitStatus := status
                                               onCpu := true, locked := true, pc := .switching })
    | .switching =>
      some (s.setChild c { s.child c with onCpu := false, locked := false, pc := .handedOff })
    | .handedOff => taskWakeSpec (s.setChild c { s.child c with pc := .gone })
    | .gone => none
  else none

/-- Who takes a step. -/
inductive WaitAct where
  | parent
  | exit (c status : Nat)
  | child (c : Nat)
deriving DecidableEq

variable {c : Nat} {a : WaitAct} {s s' : WaitSys} {t : Child} {children : List Nat} {pid : Int}

/-- The steps of the parent and its children. -/
def WaitStep (s : WaitSys) (a : WaitAct) (s' : WaitSys) : Prop :=
  match a with
  | .parent => parentStep s = some s'
  | .exit c status => exitStep s c status = some s'
  | .child c => childStep s c = some s'

/-- The scheduler is fair to everything but the decision of a child to exit. -/
def WaitAct.fair : WaitAct → Prop
  | .exit _ _ => False
  | _ => True

/-- The parent has looked at the child in this round and is not yet on the sleep queue. -/
def ParentPc.hasPassed (c : Nat) : ParentPc → Prop
  | .scan rest _ => c ∉ rest
  | .sleepy => True
  | _ => False

/-- The condition on a step: a child does not send its wakeup while the parent is between its look
at this child and the sleep queue. -/
def WaitAct.Careful (s : WaitSys) : WaitAct → Prop
  | .child c => (s.child c).pc = .handedOff → ¬ s.pc.hasPassed c
  | _ => True

/-- The state of a child goes with its program point. -/
def Child.Ok (c : Child) : Prop :=
  match c.pc with
  | .running | .exiting _ => c.state ≠ .zombie ∧ c.locked = false
  | .switching => c.state = .zombie ∧ c.onCpu = true ∧ c.locked = true
  | .handedOff | .gone => c.state = .zombie ∧ c.onCpu = false ∧ c.locked = false

/-- The parent calls `task_wait`. -/
structure WaitSys.Initial (s : WaitSys) : Prop where
  pc : s.pc = .enter
  state : s.parentState = .running
  unlocked : s.parentLocked = false
  notQueued : s.queued = false
  nodup : s.kids.Nodup
  children : s.children = s.kids
  child : ∀ c ∈ s.kids, (s.child c).Ok

/-! ## The invariant -/

/-- The parent will sleep, or sleeps, without another look at the child. -/
def ParentPc.blind (c : Nat) : ParentPc → Prop
  | .switching | .asleep => True
  | pc => pc.hasPassed c

/-- The parent is on the sleep queue exactly while it is in `task_sleep`; a matching child that has
sent its wakeup is one at which the parent will look; and the scan knows of the children behind
it. -/
structure WaitInv (s : WaitSys) : Prop where
  nodup : s.kids.Nodup
  len : s.children.length ≤ s.kids.length
  sub : ∀ c ∈ s.children, c ∈ s.kids
  child : ∀ c ∈ s.kids, (s.child c).Ok
  rest : ∀ rest found, s.pc = .scan rest found → ∀ c ∈ rest, c ∈ s.children
  found : ∀ rest found, s.pc = .scan rest found → 0 < s.pid → ∀ c ∈ s.children, c ∉ rest →
    ((s.child c).tgid : Int) = s.pid → found = true
  queued : s.queued = true ↔ s.pc = .switching ∨ s.pc = .asleep
  sleeping : s.queued = true → s.parentState = .sleeping
  locked : s.parentLocked = true ↔ s.pc = .switching
  missed : ∀ c ∈ s.children, Matches s.pid (s.child c) → (s.child c).pc = .gone → ¬ s.pc.blind c

theorem WaitSys.Initial.inv (h : s.Initial) : WaitInv s := by
  have hscan : ∀ rest found, s.pc ≠ .scan rest found := by simp [h.pc]
  refine ⟨h.nodup, by rw [h.children], fun c hc => h.children ▸ hc, h.child,
    fun rest found hpc => absurd hpc (hscan rest found),
    fun rest found hpc => absurd hpc (hscan rest found), ?_, ?_, ?_, ?_⟩
  · simp [h.notQueued, h.pc]
  · simp [h.notQueued]
  · simp [h.unlocked, h.pc]
  · intro c _ _ _ hblind
    rw [h.pc] at hblind
    exact hblind

theorem Ready.of_handedOff {c : Child} (hok : c.Ok) (hmatch : Matches pid c)
    (hpc : c.pc = .handedOff ∨ c.pc = .gone) : Ready pid c := by
  rcases hpc with hpc | hpc <;> simp only [Child.Ok, hpc] at hok <;> exact ⟨hok.1, hok.2.1, hmatch⟩

theorem Ready.handedOff {c : Child} (hok : c.Ok) (h : Ready pid c) :
    c.pc = .handedOff ∨ c.pc = .gone := by
  cases hpc : c.pc with
  | running | exiting status =>
    simp only [Child.Ok, hpc] at hok
    exact absurd h.1 hok.1
  | switching =>
    simp only [Child.Ok, hpc] at hok
    rw [h.2.1] at hok
    cases hok.2.1
  | handedOff => exact .inl rfl
  | gone => exact .inr rfl

/-- The parent goes to a place outside of its scan. -/
theorem WaitInv.setPc (hs : WaitInv s) {pc : ParentPc} {state : TaskState} {locked queued : Bool}
    (hsub : children.Sublist s.children)
    (hscan : ∀ rest found, pc ≠ .scan rest found)
    (hqueued : queued = true ↔ pc = .switching ∨ pc = .asleep)
    (hsleep : queued = true → state = .sleeping) (hlocked : locked = true ↔ pc = .switching)
    (hblind : ∀ c, pc.blind c → s.pc.blind c) :
    WaitInv { s with children := children, parentState := state, parentLocked := locked
                     queued := queued, pc := pc } :=
  ⟨hs.nodup, hsub.length_le.trans hs.len, fun c hc => hs.sub c (hsub.subset hc), hs.child,
    fun rest found h => absurd h (hscan rest found),
    fun rest found h => absurd h (hscan rest found), hqueued, hsleep, hlocked,
    fun c hc hmatch hgone hb => hs.missed c (hsub.subset hc) hmatch hgone (hblind c hb)⟩

section

variable (hs : WaitInv s) (hswitch : s.pc ≠ .switching) (hasleep : s.pc ≠ .asleep)

include hs hswitch hasleep

theorem WaitInv.not_queued : s.queued = false ∧ s.parentLocked = false := by
  rw [Bool.eq_false_iff, Bool.eq_false_iff]
  refine ⟨fun h => ?_, fun h => hswitch (hs.locked.1 h)⟩
  rcases hs.queued.1 h with h | h
  · exact hswitch h
  · exact hasleep h

/-- The parent returns. -/
theorem WaitInv.return (hsub : children.Sublist s.children) (r : WaitResult) :
    WaitInv { s with pc := .done r, children := children } := by
  obtain ⟨hq, hl⟩ := hs.not_queued hswitch hasleep
  exact hs.setPc hsub (by simp) (by simp [hq]) hs.sleeping (by simp [hl])
    fun _ hblind => hblind.elim

/-- The parent begins to look at its children. -/
theorem WaitInv.beginScan : WaitInv { s with pc := .scan s.children false } := by
  obtain ⟨hq, hl⟩ := hs.not_queued hswitch hasleep
  refine ⟨hs.nodup, hs.len, hs.sub, hs.child, ?_, ?_, ?_, hs.sleeping, ?_, ?_⟩
  · intro rest found h c hc
    cases h
    exact hc
  · intro rest found h _ c hc hrest
    cases h
    exact absurd hc hrest
  · simp [hq]
  · simp [hl]
  · intro c hc _ _ hblind
    exact hblind hc

end

theorem waitScan_inv (hs : WaitInv s) {rest : List Nat} {found : Bool}
    (hpc : s.pc = .scan (c :: rest) found) : WaitInv (waitScan s c rest found) := by
  obtain ⟨hq, hl⟩ := hs.not_queued (by simp [hpc]) (by simp [hpc])
  unfold waitScan
  split
  · refine hs.return (by simp [hpc]) (by simp [hpc]) ?_ _
    split
    · exact .refl _
    · exact List.erase_sublist
  rename_i hready
  refine ⟨hs.nodup, hs.len, hs.sub, hs.child, ?_, ?_, ?_, hs.sleeping, ?_, ?_⟩
  · intro rest' found' h d hd
    cases h
    exact hs.rest _ _ hpc d (List.mem_cons_of_mem c hd)
  · intro rest' found' h hpid d hd hrest htgid
    cases h
    by_cases hdc : d = c
    · subst hdc
      simp [hpid, htgid]
    · have := hs.found _ _ hpc hpid d hd (by simp [hdc, hrest]) htgid
      simp [this]
  · simp [hq]
  · simp [hl]
  · -- a matching child that has sent its wakeup would have been reaped
    intro d hd hmatch hgone hblind
    by_cases hdc : d = c
    · subst hdc
      exact hready (.of_handedOff (hs.child d (hs.sub d hd)) hmatch (.inr hgone))
    · refine hs.missed d hd hmatch hgone ?_
      rw [hpc]
      simpa [ParentPc.blind, ParentPc.hasPassed, hdc] using hblind

theorem WaitInv.parent (h : parentStep s = some s') (hs : WaitInv s) : WaitInv s' := by
  unfold parentStep at h
  split at h
  · rename_i hpc
    split at h <;> cases h
    · exact hs.return (by simp [hpc]) (by simp [hpc]) (.refl _) _
    · exact hs.beginScan (by simp [hpc]) (by simp [hpc])
  · rename_i found hpc
    -- the whole list was looked at, so no matching child has sent its wakeup
    split at h <;> cases h
    · exact hs.return (by simp [hpc]) (by simp [hpc]) (.refl _) _
    obtain ⟨hq, hl⟩ := hs.not_queued (by simp [hpc]) (by simp [hpc])
    refine hs.setPc (.refl _) (by simp) (by simp [hq]) hs.sleeping (by simp [hl]) ?_
    intro c _
    rw [hpc]
    exact List.not_mem_nil
  · rename_i c rest found hpc
    split at h <;> cases h
    exact waitScan_inv hs hpc
  · rename_i hpc
    cases h
    refine hs.setPc (.refl _) (by simp) (by simp) (fun _ => rfl) (by simp) ?_
    intro c _
    rw [hpc]
    trivial
  · rename_i hpc
    cases h
    have hq : s.queued = true := hs.queued.2 (.inl hpc)
    refine hs.setPc (.refl _) (by simp) (by simp [hq]) hs.sleeping (by simp) ?_
    intro c _
    rw [hpc]
    trivial
  · cases h
  · rename_i hpc
    cases h
    exact hs.beginScan (by simp [hpc]) (by simp [hpc])
  · cases h

/-- A child moves on. -/
theorem WaitInv.setChild (hs : WaitInv s) (hok : t.Ok) (htgid : t.tgid = (s.child c).tgid)
    (hgone : t.pc = .gone → c ∈ s.children → Matches s.pid (s.child c) → ¬ s.pc.blind c) :
    WaitInv (s.setChild c t) := by
  have hself : (s.setChild c t).child c = t := by simp [WaitSys.setChild]
  have hother d (hd : d ≠ c) : (s.setChild c t).child d = s.child d := by
    simp [WaitSys.setChild, hd]
  have hsame d : ((s.setChild c t).child d).tgid = (s.child d).tgid := by
    by_cases hd : d = c
    · subst hd
      rw [hself, htgid]
    · rw [hother d hd]
  refine ⟨hs.nodup, hs.len, hs.sub, ?_, hs.rest, ?_, hs.queued, hs.sleeping, hs.locked, ?_⟩
  · intro d hd
    by_cases hdc : d = c
    · subst hdc
      rw [hself]
      exact hok
    · rw [hother d hdc]
      exact hs.child d hd
  · intro rest found hpc hpid d hd hrest htg
    rw [hsame d] at htg
    exact hs.found rest found hpc hpid d hd hrest htg
  · intro d hd hmatch hg
    have hmatch' : Matches s.pid (s.child d) := by
      intro hpid
      have := hmatch hpid
      rwa [hsame d] at this
    by_cases hdc : d = c
    · subst hdc
      rw [hself] at hg
      exact hgone hg hd hmatch'
    · rw [hother d hdc] at hg
      exact hs.missed d hd hmatch' hg

/-- How many sections a child has before it. -/
def ChildPc.stage : ChildPc → Nat
  | .running => 4
  | .exiting _ => 3
  | .switching => 2
  | .handedOff => 1
  | .gone => 0

/-- What a section of a child does: the child moves on to `t`, and its last section wakes the
parent. -/
structure ChildMoves (s : WaitSys) (a : WaitAct) (c : Nat) (t : Child) (s' : WaitSys) : Prop where
  kid : c ∈ s.kids
  next : a = .child c ∧ (s.child c).pc = .handedOff ∧ t = { s.child c with pc := .gone } ∧
      taskWakeSpec (s.setChild c t) = some s' ∨
    (s.child c).pc ≠ .handedOff ∧ t.pc ≠ .gone ∧ s' = s.setChild c t
  ok : (s.child c).Ok → t.Ok
  tgid : t.tgid = (s.child c).tgid
  stage : t.pc.stage < (s.child c).pc.stage

theorem WaitStep.childMoves (ha : a ≠ .parent) (h : WaitStep s a s') :
    ∃ c t, ChildMoves s a c t s' := by
  cases a with
  | parent => exact absurd rfl ha
  | exit c status =>
    change exitStep s c status = some s' at h
    unfold exitStep at h
    split at h <;> cases h
    rename_i hrun
    obtain ⟨hkid, hpc, -⟩ := hrun
    refine ⟨c, _, hkid, .inr ⟨by simp [hpc], by simp, rfl⟩, fun hok => ?_, rfl,
      by simp [hpc, ChildPc.stage]⟩
    simpa [Child.Ok, hpc] using hok
  | child c =>
    change childStep s c = some s' at h
    unfold childStep at h
    split at h
    · rename_i hkid
      split at h
      · cases h
      · rename_i status hpc
        split at h <;> cases h
        exact ⟨c, _, hkid, .inr ⟨by simp [hpc], by simp, rfl⟩, fun _ => ⟨rfl, rfl, rfl⟩, rfl,
          by simp [hpc, ChildPc.stage]⟩
      · rename_i hpc
        cases h
        refine ⟨c, _, hkid, .inr ⟨by simp [hpc], by simp, rfl⟩, fun hok => ?_, rfl,
          by simp [hpc, ChildPc.stage]⟩
        simp only [Child.Ok, hpc] at hok
        exact ⟨hok.1, rfl, rfl⟩
      · rename_i hpc
        refine ⟨c, _, hkid, .inl ⟨rfl, hpc, rfl, h⟩, fun hok => ?_, rfl,
          by simp [hpc, ChildPc.stage]⟩
        simpa [Child.Ok, hpc] using hok
      · cases h
    · cases h

/-- `task_wake_spec` finds the parent asleep, or it has nothing to do. -/
theorem taskWakeSpec_cases (h : taskWakeSpec s = some s') :
    s' = s ∧ ¬ (s.queued = true ∧ s.parentState = .sleeping) ∨
      s.queued = true ∧ s.parentLocked = false ∧
        s' = { s with parentState := .running, queued := false, pc := .woken } := by
  unfold taskWakeSpec at h
  split at h
  · rename_i hqueued
    split at h <;> cases h
    rename_i hunlocked
    exact .inr ⟨hqueued.1, Bool.eq_false_iff.2 hunlocked, rfl⟩
  · rename_i hnot
    cases h
    exact .inl ⟨rfl, hnot⟩

theorem WaitInv.stepChild (hm : ChildMoves s a c t s') (hcare : a.Careful s)
    (hs : WaitInv s) : WaitInv s' := by
  have hok := hm.ok (hs.child c hm.kid)
  rcases hm.next with ⟨rfl, hpc, rfl, hwake⟩ | ⟨-, hgone, rfl⟩
  · rcases taskWakeSpec_cases hwake with ⟨rfl, hnot⟩ | ⟨-, hunlocked, rfl⟩
    · have hq : ¬ s.queued = true := fun hq => hnot ⟨hq, hs.sleeping hq⟩
      refine hs.setChild hok rfl fun _ _ _ hblind => ?_
      cases hpc' : s.pc with
      | switching => exact hq (hs.queued.2 (.inl hpc'))
      | asleep => exact hq (hs.queued.2 (.inr hpc'))
      | enter | woken | done =>
        rw [hpc'] at hblind
        exact hblind
      | sleepy =>
        refine hcare hpc ?_
        rw [hpc']
        exact trivial
      | scan rest found =>
        refine hcare hpc ?_
        rw [hpc'] at hblind ⊢
        exact hblind
    · -- the parent sleeps and is woken
      have hl : s.parentLocked = false := hunlocked
      have hwoken : WaitInv { s with parentState := .running, queued := false, pc := .woken } :=
        hs.setPc (.refl _) (by simp) (by simp) (by simp) (by simp [hl]) fun _ hblind => hblind.elim
      exact hwoken.setChild (t := { s.child c with pc := .gone }) hok rfl fun _ _ _ hblind => hblind
  · exact hs.setChild hok hm.tgid fun h => absurd h hgone

theorem WaitInv.step (h : WaitStep s a s') (hcare : a.Careful s) (hs : WaitInv s) : WaitInv s' := by
  by_cases ha : a = .parent
  · subst ha
    exact hs.parent h
  · obtain ⟨c, t, hm⟩ := h.childMoves ha
    exact hs.stepChild hm hcare

/-! ## Every step makes progress -/

/-- How far the parent is from its next sleep. -/
def WaitSys.parentStage (s : WaitSys) : Nat :=
  match s.pc with
  | .enter | .woken => s.kids.length + 5
  | .scan rest _ => rest.length + 4
  | .sleepy => 3
  | .switching => 2
  | .asleep => 1
  | .done _ => 0

/-- The sections before all children. -/
def WaitSys.childStages (s : WaitSys) : Nat :=
  (s.kids.map fun c => (s.child c).pc.stage).sum

/-- A child's section pays for another round of the parent. -/
def WaitSys.rank (s : WaitSys) : Nat := s.childStages * (s.kids.length + 6) + s.parentStage

theorem rank_lt_of_childStages (hkids : s'.kids = s.kids) (hchild : s'.childStages < s.childStages)
    (hparent : s'.parentStage ≤ s.parentStage ∨ s'.parentStage < s.kids.length + 6) :
    s'.rank < s.rank := by
  unfold rank
  rw [hkids]
  have hmul : (s'.childStages + 1) * (s.kids.length + 6) ≤ s.childStages * (s.kids.length + 6) :=
    Nat.mul_le_mul_right _ hchild
  rw [Nat.add_mul, Nat.one_mul] at hmul
  rcases hparent with h | h
  · omega
  · omega

theorem childStages_setChild (hs : WaitInv s) (hc : c ∈ s.kids)
    (hlt : t.pc.stage < (s.child c).pc.stage) : (s.setChild c t).childStages < s.childStages := by
  have hsum := sum_map_apply_update (fun _ x => x.pc.stage) s.child t hs.nodup hc
  unfold childStages
  show (s.kids.map fun d => (update s.child c t d).pc.stage).sum < _
  omega

theorem parentStage_parent (hs : WaitInv s) (h : parentStep s = some s') : s'.rank < s.rank := by
  have hlen := hs.len
  suffices hmain : s'.kids = s.kids ∧ s'.child = s.child ∧ s'.parentStage < s.parentStage by
    obtain ⟨hkids, hchild, hlt⟩ := hmain
    have hstages : s'.childStages = s.childStages := by
      unfold childStages
      rw [hkids, hchild]
    unfold rank
    rw [hkids, hstages]
    omega
  unfold parentStep at h
  split at h
  · rename_i hpc
    split at h <;> cases h
    · exact ⟨rfl, rfl, by simp [parentStage, hpc]⟩
    · refine ⟨rfl, rfl, ?_⟩
      simp only [parentStage, hpc]
      omega
  · rename_i found hpc
    split at h <;> cases h
    · exact ⟨rfl, rfl, by simp [parentStage, hpc]⟩
    · exact ⟨rfl, rfl, by simp [parentStage, hpc]⟩
  · rename_i c rest found hpc
    split at h <;> cases h
    unfold waitScan
    split
    · exact ⟨rfl, rfl, by simp [parentStage, hpc]⟩
    · exact ⟨rfl, rfl, by simp [parentStage, hpc]⟩
  · rename_i hpc
    cases h
    exact ⟨rfl, rfl, by simp [parentStage, hpc]⟩
  · rename_i hpc
    cases h
    exact ⟨rfl, rfl, by simp [parentStage, hpc]⟩
  · cases h
  · rename_i hpc
    cases h
    refine ⟨rfl, rfl, ?_⟩
    simp only [parentStage, hpc]
    omega
  · cases h

theorem WaitInv.rank_lt (hs : WaitInv s) (h : WaitStep s a s') : s'.rank < s.rank := by
  by_cases ha : a = .parent
  · subst ha
    exact parentStage_parent hs h
  obtain ⟨c, t, hm⟩ := h.childMoves ha
  have hlt := childStages_setChild hs hm.kid hm.stage
  rcases hm.next with ⟨-, -, -, hwake⟩ | ⟨-, -, rfl⟩
  · rcases taskWakeSpec_cases hwake with ⟨rfl, -⟩ | ⟨-, -, rfl⟩
    · exact rank_lt_of_childStages rfl hlt (.inl (Nat.le_refl _))
    · exact rank_lt_of_childStages rfl hlt (.inr (Nat.le_refl _))
  · exact rank_lt_of_childStages rfl hlt (.inl (Nat.le_refl _))

/-! ## The parent returns -/

/-- The parent still waits and can reap the child. -/
structure CanReap (s : WaitSys) (c : Nat) : Prop where
  mem : c ∈ s.children
  ready : Ready s.pid (s.child c)
  waiting : ∀ r, s.pc ≠ .done r

/-- The parent has returned the process id of a matching zombie off its CPU. -/
def Reaped (s : WaitSys) : Prop :=
  ∃ d ∈ s.kids, Ready s.pid (s.child d) ∧
    s.pc = .done (.ok ((s.child d).tgid, (s.child d).exitStatus))

section

variable (hs : WaitInv s)

include hs

/-- A step of the parent keeps the zombie or reaps one. -/
theorem CanReap.parent (hc : CanReap s c) (h : parentStep s = some s') :
    CanReap s' c ∨ Reaped s' := by
  unfold parentStep at h
  split at h
  · split at h <;> cases h
    · rename_i hempty
      have hmem := hc.mem
      rw [hempty] at hmem
      cases hmem
    · exact .inl ⟨hc.mem, hc.ready, by simp⟩
  · rename_i found hpc
    split at h <;> cases h
    · -- the scan has seen the child, so it does not report that there is none
      rename_i hnone
      have hfound := hs.found [] found hpc hnone.1 c hc.mem List.not_mem_nil (hc.ready.2.2 hnone.1)
      rw [hfound] at hnone
      cases hnone.2
    · exact .inl ⟨hc.mem, hc.ready, by simp⟩
  · rename_i d rest found hpc
    split at h <;> cases h
    unfold waitScan
    split
    · rename_i hready
      exact .inr ⟨d, hs.sub d (hs.rest _ _ hpc d List.mem_cons_self), hready, rfl⟩
    · exact .inl ⟨hc.mem, hc.ready, by simp⟩
  · cases h
    exact .inl ⟨hc.mem, hc.ready, by simp⟩
  · cases h
    exact .inl ⟨hc.mem, hc.ready, by simp⟩
  · cases h
  · cases h
    exact .inl ⟨hc.mem, hc.ready, by simp⟩
  · cases h

/-- A step of a child leaves a zombie off its CPU as it is, but for its wakeup, and the parent does
not return by it. -/
theorem ready_stepChild (ha : a ≠ .parent) (h : WaitStep s a s') :
    s'.children = s.children ∧ s'.kids = s.kids ∧ s'.pid = s.pid ∧
      (∀ d ∈ s.kids, Ready s.pid (s.child d) → (s'.child d).tgid = (s.child d).tgid ∧
        (s'.child d).exitStatus = (s.child d).exitStatus ∧ Ready s.pid (s'.child d)) ∧
      (s'.pc = s.pc ∨ s'.pc = .woken ∧ s.pc = .asleep) := by
  obtain ⟨c, t, hm⟩ := h.childMoves ha
  have hkeep : ∀ d ∈ s.kids, Ready s.pid (s.child d) →
      ((s.setChild c t).child d).tgid = (s.child d).tgid ∧
        ((s.setChild c t).child d).exitStatus = (s.child d).exitStatus ∧
        Ready s.pid ((s.setChild c t).child d) := by
    intro d hd hready
    by_cases hdc : d = c
    · subst hdc
      rcases hm.next with ⟨-, -, rfl, -⟩ | ⟨hpc, -, -⟩
      · simpa [setChild, Ready, Matches] using hready
      -- a zombie off its CPU has only its wakeup left
      rcases hready.handedOff (hs.child d hd) with h | h
      · exact absurd h hpc
      · have hstage := hm.stage
        rw [h] at hstage
        cases hstage
    · simpa [setChild, hdc] using hready
  rcases hm.next with ⟨-, -, -, hwake⟩ | ⟨-, -, rfl⟩
  · rcases taskWakeSpec_cases hwake with ⟨rfl, -⟩ | ⟨hqueued, hunlocked, rfl⟩
    · exact ⟨rfl, rfl, rfl, hkeep, .inl rfl⟩
    refine ⟨rfl, rfl, rfl, hkeep, .inr ⟨rfl, ?_⟩⟩
    rcases hs.queued.1 hqueued with hsw | has
    · exact absurd (hs.locked.2 hsw) (Bool.eq_false_iff.1 hunlocked)
    · exact has
  · exact ⟨rfl, rfl, rfl, hkeep, .inl rfl⟩

/-- A zombie that can be reaped stays one until the parent has returned one. -/
theorem CanReap.step (h : WaitStep s a s') (hc : CanReap s c ∨ Reaped s) :
    CanReap s' c ∨ Reaped s' := by
  by_cases ha : a = .parent
  · subst ha
    rcases hc with hc | ⟨d, -, hready, hpc⟩
    · exact hc.parent hs h
    -- a parent that has returned takes no step
    change parentStep s = some s' at h
    rw [parentStep, hpc] at h
    cases h
  obtain ⟨hchildren, hkids, hpid, hkeep, hpc⟩ := ready_stepChild hs ha h
  rcases hc with hc | ⟨d, hkid, hready, hdone⟩
  · obtain ⟨-, -, hready⟩ := hkeep c (hs.sub c hc.mem) hc.ready
    refine .inl ⟨hchildren ▸ hc.mem, by rwa [hpid], ?_⟩
    intro r
    rcases hpc with hpc | ⟨hpc, -⟩
    · rw [hpc]
      exact hc.waiting r
    · simp [hpc]
  · obtain ⟨htgid, hstatus, hready'⟩ := hkeep d hkid hready
    refine .inr ⟨d, hkids ▸ hkid, by rwa [hpid], ?_⟩
    rcases hpc with hpc | ⟨-, hpc⟩
    · rw [hpc, hdone, htgid, hstatus]
    · rw [hdone] at hpc
      cases hpc

/-- As long as there is a zombie to be reaped and the parent has not returned, someone to whom the
scheduler is fair can take a step. -/
theorem CanReap.enabled (hc : CanReap s c) : ∃ a, WaitAct.fair a ∧ Enabled WaitStep a s := by
  have hparent (h : (parentStep s).isSome = true) : ∃ a, WaitAct.fair a ∧ Enabled WaitStep a s :=
    ⟨.parent, trivial, Option.isSome_iff_exists.1 h⟩
  have hchild (d : Nat) (h : (childStep s d).isSome = true) :
      ∃ a, WaitAct.fair a ∧ Enabled WaitStep a s :=
    ⟨.child d, trivial, Option.isSome_iff_exists.1 h⟩
  cases hpc : s.pc with
  | enter =>
    apply hparent
    rw [parentStep, hpc]
    by_cases hempty : s.children = [] <;> simp [hempty]
  | scan rest found =>
    cases rest with
    | nil =>
      apply hparent
      rw [parentStep, hpc]
      by_cases hnone : 0 < s.pid ∧ found = false <;> simp [hnone]
    | cons d rest =>
      by_cases hlocked : (s.child d).locked = true
      · -- the child is in `task_sched` and will be let go of
        have hkid := hs.sub d (hs.rest _ _ hpc d List.mem_cons_self)
        have hok := hs.child d hkid
        have hsw : (s.child d).pc = .switching := by
          cases hdpc : (s.child d).pc <;> simp_all [Child.Ok]
        apply hchild d
        rw [childStep, if_pos hkid, hsw]
        rfl
      · apply hparent
        rw [parentStep, hpc]
        simp [hlocked]
  | sleepy | switching | woken =>
    apply hparent
    rw [parentStep, hpc]
    rfl
  | done r => exact absurd hpc (hc.waiting r)
  | asleep =>
    -- the wakeup of the zombie is still to come
    have hkid := hs.sub c hc.mem
    have hq : s.queued = true := hs.queued.2 (.inr hpc)
    have hl : s.parentLocked = false := by
      rw [Bool.eq_false_iff]
      intro h
      have := hs.locked.1 h
      rw [hpc] at this
      cases this
    have hhanded : (s.child c).pc = .handedOff := by
      refine (hc.ready.handedOff (hs.child c hkid)).resolve_right fun hgone => ?_
      refine hs.missed c hc.mem hc.ready.2.2 hgone ?_
      rw [hpc]
      exact trivial
    apply hchild c
    rw [childStep, if_pos hkid, hhanded]
    simp [taskWakeSpec, setChild, hq, hs.sleeping hq, hl]

end

/-- `task_wait` returns. On every fair trace on which no child sends its wakeup between the parent's
look at it and the parent's entry on the sleep queue: once there is a matching child that is a
zombie off its CPU, the parent returns the process id of such a child. -/
theorem wait_returns (tr : Trace WaitStep) (hinit : (tr.state 0).Initial)
    (hfair : tr.WeakFair WaitAct.fair)
    (hcare : ∀ n a, tr.act n = some a → a.Careful (tr.state n)) {n c : Nat}
    (hc : CanReap (tr.state n) c) : ∃ m, n ≤ m ∧ Reaped (tr.state m) := by
  have hinv : ∀ m, WaitInv (tr.state m) := by
    intro m
    refine tr.invariant hinit.inv ?_ m (Nat.zero_le m)
    intro j a _ hact hstep hs
    exact hs.step hstep (hcare j a hact)
  have hkeep : ∀ m, n ≤ m → CanReap (tr.state m) c ∨ Reaped (tr.state m) := by
    refine tr.invariant (P := fun s => CanReap s c ∨ Reaped s) (.inl hc) ?_
    intro j a _ _ hstep hj
    exact CanReap.step (hinv j) hstep hj
  obtain ⟨k, hk, hrest⟩ := tr.comes_to_rest (n := n) rank
    (fun m a _ _ hstep => (hinv m).rank_lt hstep) hfair
  refine ⟨k, hk, (hkeep k hk).resolve_left fun hreap => ?_⟩
  obtain ⟨a, ha, hen⟩ := hreap.enabled (hinv k)
  exact hrest a ha hen

/-- A parent that calls `task_wait(-1)` with one child. -/
def WaitSys.oneChild (child : Child) : WaitSys where
  pid := -1
  nowait := false
  kids := [0]
  child := fun _ => child
  children := [0]
  parentState := .running
  parentLocked := false
  queued := false
  pc := .enter

theorem WaitSys.oneChild_initial {child : Child} (h : child.Ok) : (oneChild child).Initial :=
  ⟨rfl, rfl, rfl, rfl, by simp [oneChild], rfl, fun _ _ => h⟩

/-- Nothing more happens once the parent sleeps or has returned and its only child is gone. -/
theorem WaitSys.oneChild_stuck (hkids : s.kids = [0]) (hgone : (s.child 0).pc = .gone)
    (hparent : parentStep s = none) (a : WaitAct) (ha : WaitAct.fair a) :
    ¬ Enabled WaitStep a s := by
  rintro ⟨s', h⟩
  cases a with
  | parent =>
    change parentStep s = some s' at h
    rw [hparent] at h
    cases h
  | exit c status => exact ha
  | child c =>
    change childStep s c = some s' at h
    unfold childStep at h
    split at h
    · rename_i hmem
      rw [hkids, List.mem_singleton] at hmem
      rw [hmem, hgone] at h
      cases h
    · cases h

/-- The parent finds its child running and sleeps. The child exits, is let go of and wakes the
parent, which reaps it. -/
theorem wait_returns_asleep : ∃ tr : Trace WaitStep,
      tr.state 0 = .oneChild ⟨7, .running, true, false, 0, .running⟩ ∧
      ∃ n m, (tr.state n).pc = .asleep ∧ n ≤ m ∧ Reaped (tr.state m) := by
  have hsleep : ∃ s, Relation.ReflTransGen (fun x y => ∃ a, WaitStep x a y ∧ a.Careful x)
      (.oneChild ⟨7, .running, true, false, 0, .running⟩) s ∧ s.pc = .asleep ∧ CanReap s 0 ∧
      ∃ s', Relation.ReflTransGen (fun x y => ∃ a, WaitStep x a y ∧ a.Careful x) s s' ∧
        s'.kids = [0] ∧ (s'.child 0).pc = .gone ∧ s'.pc = .done (.ok (7, 3)) := by
    refine ⟨_, .head ⟨.parent, rfl, trivial⟩ (.head ⟨.parent, rfl, trivial⟩
      (.head ⟨.parent, rfl, trivial⟩ (.head ⟨.parent, rfl, trivial⟩
      (.head ⟨.parent, rfl, trivial⟩ (.head ⟨.exit 0 3, rfl, trivial⟩
      (.head ⟨.child 0, rfl, nofun⟩ (.single ⟨.child 0, rfl, nofun⟩))))))), rfl,
      ⟨List.mem_singleton_self 0, by decide, nofun⟩, _,
      -- the wakeup comes while the parent is on the sleep queue
      .head ⟨.child 0, rfl, fun _ h => h⟩
        (.head ⟨.parent, rfl, trivial⟩ (.single ⟨.parent, rfl, trivial⟩)), rfl, rfl, rfl⟩
  obtain ⟨s, hrun, hpc, hreap, s', hrest, hkids, hgone, hdone⟩ := hsleep
  obtain ⟨tr', rfl, hfair', hcare', -⟩ :=
    exists_fair_trace hrest (oneChild_stuck hkids hgone (by rw [parentStep, hdone]))
  obtain ⟨tr, hzero, hfair, hcare, n, hn⟩ := tr'.exists_after hfair' hcare' hrun
  rw [← hn 0, Nat.zero_add] at hpc hreap
  obtain ⟨m, hm, hreaped⟩ := wait_returns tr
    (by rw [hzero]; exact oneChild_initial ⟨by decide, rfl⟩) hfair hcare hreap
  exact ⟨tr, hzero, n, m, hpc, hm, hreaped⟩

/-- The child sends its wakeup after the parent has looked at it and before the parent is on the
sleep queue. The trace is fair, the child is a zombie off its CPU, and the parent sleeps forever. -/
theorem wait_lost_wakeup : ∃ tr : Trace WaitStep, (tr.state 0).Initial ∧ tr.WeakFair WaitAct.fair ∧
      ∃ n, ∀ m, n ≤ m → CanReap (tr.state m) 0 ∧ (tr.state m).pc = .asleep := by
  have hrun : ∃ s, Relation.ReflTransGen (fun x y => ∃ a, WaitStep x a y ∧ True)
      (.oneChild ⟨7, .running, true, false, 0, .running⟩) s ∧ s.kids = [0] ∧ s.children = [0] ∧
      s.pid = -1 ∧ s.child 0 = ⟨7, .zombie, false, false, 3, .gone⟩ ∧ s.pc = .asleep := by
    refine ⟨_, .tail (.tail (.tail (.tail (.tail (.tail (.tail (.tail (.single
      ⟨.exit 0 3, rfl, trivial⟩) ⟨.parent, rfl, trivial⟩) ⟨.parent, rfl, trivial⟩)
      ⟨.child 0, rfl, trivial⟩) ⟨.child 0, rfl, trivial⟩) ⟨.child 0, rfl, trivial⟩)
      ⟨.parent, rfl, trivial⟩) ⟨.parent, rfl, trivial⟩) ⟨.parent, rfl, trivial⟩, rfl, rfl, rfl, rfl,
      rfl⟩
  obtain ⟨s, hrun, hkids, hchildren, hpid, hchild, hpc⟩ := hrun
  obtain ⟨tr, hzero, hfair, -, n, hn⟩ := exists_fair_trace hrun
    (oneChild_stuck hkids (by rw [hchild]) (by rw [parentStep, hpc]))
  refine ⟨tr, ?_, hfair, n, fun m hm => ?_⟩
  · rw [hzero]
    exact oneChild_initial ⟨by decide, rfl⟩
  rw [← Nat.sub_add_cancel hm, hn]
  refine ⟨⟨by simp [hchildren], ?_, by simp [hpc]⟩, hpc⟩
  rw [hpid, hchild]
  decide

end BrkKernel.Kern
