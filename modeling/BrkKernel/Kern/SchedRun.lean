import BrkKernel.Kern.SchedWake
import Mathlib.Data.List.Nodup

/-!
# Every action of the scheduler keeps the invariant

`Inv` puts the stages of the tasks and the locks together. Each section of the code moves at most
two tasks; `Inv.fire` says that no action breaks the invariant, and so no assertion of the source
fails in a reachable state (`inv_of_reachable`).
-/

set_option autoImplicit false

namespace BrkKernel.Sched

open View Option

/-- The task a CPU switches to is not the one it leaves. -/
def Cpu.apart : Cpu → Prop
  | .lockNext c n | .resume c n => ∀ t, c = some t → n ≠ some t
  | _ => True

variable (C : Conds) {o : Option Owner} {c : Cpu} {held retry : Bool} {old new : Waker} {st : Stage}

/-- What holds in every reachable state. -/
structure Inv (s : Sys) : Prop where
  alive : s.panicked = false
  placed : ∀ t, Placed C s t
  apart : ∀ i, (s.cpu i).apart
  core : Core C s

section Steps

variable {C} {s s' : Sys} {i t u w k : Nat}

/-- One task moves, and no CPU changes. -/
theorem Inv.moved (h : Inv C s) (hm : Moves C s s' t st)
    (halive : s'.panicked = s.panicked) (hcpu : s'.cpu = s.cpu) (hcore : Core C s') : Inv C s' where
  alive := halive.trans h.alive
  placed := hm.placed h.placed
  apart i := by
    rw [hcpu]
    exact h.apart i
  core := hcore

theorem apart_setCpu (h : ∀ i, (s.cpu i).apart) (hc : c.apart) (j : Nat) :
    ((s.setCpu i c).cpu j).apart := by
  show (Function.update s.cpu i c j).apart
  by_cases hj : j = i
  · subst hj
    simpa using hc
  · simpa [hj] using h j

/-- Nobody looks at the record of a task whose lock is free or its own. -/
theorem Core.no_peek (h : Core C s) (hlock : (s.task t).lock = o)
    (ho : ∀ w, o ≠ some (.peer w)) (w : Nat) : s.waker w ≠ .peek t := by
  intro hw
  exact ho w (hlock.symm.trans (h.peeks w t hw))

/-- A task off the sleep queue changes while nobody looks at it. -/
theorem Core.setAwake (h : Core C s) {r : Task}
    (hholds : r.pc.holds = (s.task t).pc.holds) (hlock : (s.task t).lock = o)
    (ho : ∀ w, o ≠ some (.peer w)) (hann : r.pc.announced = none)
    (hout : (s.view t).sleeping = 0) : Core C (s.setTask t r) := by
  refine h.setTask (fun w hw => absurd hw (h.no_peek hlock ho w)) (fun k hk => ?_)
    (fun hmem => absurd hmem (not_mem_sleepQueue hout)) hholds
  rw [hann] at hk
  cases hk

theorem lock_of_view {v : View} (hv : s.view t = v) (hown : v.own = true) :
    (s.task t).lock = some .self := by
  have : ((s.task t).lock == some .self) = true := (congrArg own hv).trans hown
  simpa using this

/-- One task moves on a CPU. -/
theorem Inv.moved_cpu (h : Inv C s) (hm : Moves C s (s'.setCpu i c) t st)
    (halive : s'.panicked = s.panicked) (hcpu : s'.cpu = s.cpu) (hc : c.apart)
    (hcore : Core C s') : Inv C (s'.setCpu i c) where
  alive := halive.trans h.alive
  placed := hm.placed h.placed
  apart j := by
    refine apart_setCpu (fun j => ?_) hc j
    rw [hcpu]
    exact h.apart j
  core := { hcore with }

/-- The lock of a condition is taken while a task is in it. -/
theorem Core.holder_of_task (h : Core C s) (hpc : (s.task t).pc.holds = some k) :
    s.holder (C.lock k) = some (.task t) :=
  (h.locks _ _).2 (by simp [Sys.holding, hpc])

/-- The sections of the code of a running task. -/
theorem Inv.advance (h : Inv C s) (hcpu : s.cpu i = .run (some t))
    (hs : s.advance C i t = some s') : Inv C s' := by
  obtain ⟨hact, hv⟩ := (h.placed t).exec hcpu
  generalize hpc : (s.task t).pc = pc at hact hv
  simp only [Sys.advance, hpc] at hs
  cases pc with
  | create | exit => cases hact
  | user | inside => cases hs
  | start | yield =>
    obtain rfl := some.inj hs
    refine h.moved (moves_user hv (by simp)) rfl rfl
      (h.core.setAwake ?_ (lock_of_view hv rfl) (by simp) rfl (congrArg sleeping hv))
    rw [hpc]
    rfl
  | test k =>
    have hq : t ∉ s.sleepQueue := not_mem_sleepQueue (congrArg sleeping hv)
    dsimp only at hs
    split at hs
    next hcond =>
      obtain rfl := some.inj hs
      refine h.moved (moves_quiet hv ⟨rfl, rfl, rfl⟩ ⟨rfl, rfl, rfl⟩ rfl) rfl rfl
        (h.core.setTask ?_ ?_ ?_ ?_)
      · exact fun w hw => h.core.peeks w t hw
      · exact fun _ hk => by cases hk
      · exact fun hmem => absurd hmem hq
      · rw [hpc]
        rfl
    next hcond =>
      obtain ⟨hlock, rfl⟩ := Lib.guard_eq_some hs
      have hheld := h.core.holder_of_task (t := t) (k := k) (by rw [hpc]; rfl)
      rw [assert_of_true (by rw [hheld]; rfl)]
      refine h.moved (moves_announce hv) rfl rfl (h.core.setTask ?_ ?_ ?_ ?_)
      · exact fun w hw => absurd hw (h.core.no_peek hlock (by simp) w)
      · intro k' hk
        obtain rfl := some.inj hk
        simpa using hcond
      · exact fun hmem => absurd hmem hq
      · rw [hpc]
        rfl
  | enqueue k =>
    obtain ⟨hfree, rfl⟩ := Lib.guard_eq_some hs
    exact h.moved (moves_publish hv) rfl rfl
      (h.core.publish hpc hfree (not_mem_sleepQueue (congrArg sleeping hv)))
  | release k =>
    obtain rfl := some.inj hs
    refine h.moved_cpu (moves_release hcpu hv) rfl rfl trivial
      (h.core.unlockTask ?_ rfl rfl fun _ => ?_)
    · rw [hpc]
      rfl
    · rw [hpc]
      rfl
  | asleep k =>
    obtain rfl := some.inj hs
    refine h.moved (moves_resumed hv) rfl rfl
      (h.core.setAwake ?_ (lock_of_view hv rfl) (by simp) rfl (congrArg sleeping hv))
    rw [hpc]
    rfl
  | relock k =>
    obtain ⟨hfree, rfl⟩ := Lib.guard_eq_some hs
    refine h.moved (moves_quiet hv ⟨rfl, rfl, rfl⟩ ⟨rfl, rfl, rfl⟩ rfl) rfl rfl
      (h.core.lockTask ?_ hfree ?_)
    · rw [hpc]
      rfl
    · exact not_mem_sleepQueue (congrArg sleeping hv)

theorem insideOf_eq_some {pc : Pc} (h : Sys.insideOf pc = some k) : pc = .inside k := by
  cases pc with
  | inside k' => rw [some.inj h]
  | create | start | user | test | enqueue | release | asleep | relock | yield | exit => cases h

/-- What a running task chooses to do. -/
theorem Inv.runTask (h : Inv C s) (hcpu : s.cpu i = .run (some t)) {op : Sys.TaskOp}
    (hs : s.runTask C i t op = some s') : Inv C s' := by
  obtain ⟨hact, hv⟩ := (h.placed t).exec hcpu
  cases op with
  | advance => exact h.advance hcpu hs
  | lock k =>
    obtain ⟨⟨hpc, hfree⟩, rfl⟩ := Lib.guard_eq_some hs
    simp only [hpc] at hv
    refine h.moved (moves_quiet hv ⟨rfl, rfl, rfl⟩ ⟨rfl, rfl, rfl⟩ rfl) rfl rfl
      (h.core.lockTask ?_ hfree ?_)
    · rw [hpc]
      rfl
    · exact not_mem_sleepQueue (congrArg sleeping hv)
  | clear =>
    obtain ⟨k, hk, rfl⟩ := map_eq_some_iff.1 hs
    exact ⟨h.alive, h.placed, h.apart, h.core.clear⟩
  | unlock =>
    obtain ⟨k, hk, rfl⟩ := map_eq_some_iff.1 hs
    have hpc := insideOf_eq_some hk
    simp only [hpc] at hv
    refine h.moved (moves_quiet hv ⟨rfl, rfl, rfl⟩ ⟨rfl, rfl, rfl⟩ rfl) rfl rfl
      (h.core.unlockTask ?_ rfl rfl fun hmem => ?_)
    · rw [hpc]
      rfl
    · exact absurd hmem (not_mem_sleepQueue (congrArg sleeping hv))
  | yield =>
    obtain ⟨⟨hpc, hlock⟩, rfl⟩ := Lib.guard_eq_some hs
    simp only [hpc] at hv
    refine h.moved_cpu (moves_yield hcpu hv) rfl rfl trivial
      (h.core.setAwake ?_ hlock (by simp) rfl (congrArg sleeping hv))
    rw [hpc]
    rfl
  | exit =>
    obtain ⟨⟨hpc, hlock⟩, rfl⟩ := Lib.guard_eq_some hs
    simp only [hpc] at hv
    refine h.moved_cpu (moves_exit hcpu hv) rfl rfl trivial
      (h.core.setAwake ?_ hlock (by simp) rfl (congrArg sleeping hv))
    rw [hpc]
    rfl

/-- A CPU goes on and no task moves. -/
theorem Inv.setCpu (h : Inv C s) (hrole : ∀ u, c.role u = (s.cpu i).role u)
    (hc : c.apart) : Inv C (s.setCpu i c) where
  alive := h.alive
  placed u := by
    rw [Placed, view_setCpu_of_role s (hrole u)]
    exact h.placed u
  apart := apart_setCpu h.apart hc
  core := { h.core with }

/-- The links of a task to the run queues and its CPU are not the business of the wakers. -/
theorem Core.relink (h : Core C s) {linked : Bool} {cpu : Nat} :
    Core C (s.setTask t { s.task t with linked := linked, cpu := cpu }) :=
  h.setTask (fun w hw => h.peeks w t hw) (fun k hk => h.announced t k hk) (fun _ => ⟨rfl, rfl⟩) rfl

theorem Core.addTail (h : Core C s) {j : Nat} : Core C (s.addTail t j) := { h.relink with }

theorem Core.delHead (h : Core C s) {n : Nat} : Core C (s.delHead i n) := { h.relink with }

section

variable (h : Inv C s)

include h

theorem Inv.schedCurr (hcpu : s.cpu i = .sched (some t)) : Inv C (s.schedCurr i t) := by
  obtain ⟨why, hv⟩ := (h.placed t).leave hcpu
  have hm := moves_schedCurr hv hcpu
  rw [schedCurr_eq hv] at hm ⊢
  by_cases hrun : why.state = .running
  · rw [if_pos hrun] at hm ⊢
    exact h.moved_cpu hm rfl rfl trivial h.core.addTail
  · rw [if_neg hrun] at hm ⊢
    exact h.moved_cpu hm rfl rfl trivial h.core

theorem Inv.pickNext {curr : Option Nat} (hcpu : s.cpu i = .pick curr) :
    Inv C (s.pickNext i curr) := by
  rw [Sys.pickNext]
  split
  next hnone =>
    refine h.setCpu (fun u => ?_) ?_
    · cases curr <;> simp [hcpu, Cpu.role]
    · cases curr <;> simp [Cpu.apart]
  next n hhead =>
    have hmem : n ∈ s.runQueue i := List.mem_of_head? hhead
    have hhere : (s.task n).cpu = i := by
      rcases (h.placed n).queued hmem with ⟨back, hv⟩ | hv
      · exact congrArg cpu hv
      · exact congrArg cpu hv
    rw [assert_of_true (by simpa using hhere)]
    split
    next hcurr =>
      subst hcurr
      exact h.moved_cpu (moves_pick_self (h.placed n) hcpu hhead) rfl rfl trivial h.core.delHead
    next hcurr =>
      obtain ⟨back, hv, hm⟩ := moves_pick (h.placed n) hcpu hhead hcurr
      refine h.moved_cpu hm rfl rfl ?_ h.core.delHead
      rintro t rfl hn
      exact hcurr hn.symm

theorem Inv.lockNext {curr next : Option Nat} (hcpu : s.cpu i = .lockNext curr next)
    (hs : s.lockNext i curr next = some s') : Inv C s' := by
  have hapart := h.apart i
  rw [hcpu] at hapart
  cases next with
  | none =>
    obtain rfl := some.inj hs
    exact h.setCpu (fun u => by simp [hcpu, Cpu.role]) hapart
  | some n =>
    have hne : curr ≠ some n := fun hc => hapart n hc rfl
    obtain ⟨back, hv⟩ := (h.placed n).picked (i := i) (by simp [hcpu, Cpu.role, hne])
    obtain ⟨hlock, rfl⟩ := Lib.guard_eq_some hs
    have hoff : (s.task n).oncpu = none := congrArg oncpu hv
    rw [assert_of_true (by simpa using hoff)]
    refine h.moved_cpu (moves_lockNext hv hcpu hne) rfl rfl hapart (h.core.setTask ?_ ?_ ?_ rfl)
    · exact fun w hw => absurd hw (h.core.no_peek hlock (by simp) w)
    · exact fun k hk => h.core.announced n k hk
    · exact fun _ => ⟨rfl, rfl⟩

/-- `task_sched_resume` behind the task it lets go. -/
theorem Inv.arrive {next : Option Nat} (hcpu : s.cpu i = .resume none next) :
    Inv C (s.setCpu i (.run next)) := by
  cases next with
  | none => exact h.setCpu (fun u => by simp [hcpu, Cpu.role]) trivial
  | some n =>
    obtain ⟨back, hv⟩ := (h.placed n).arrive (i := i) (by simp [hcpu, Cpu.role])
    exact h.moved_cpu (moves_arrive hv hcpu) rfl rfl trivial h.core

theorem Inv.taskSchedResume {prev next : Option Nat}
    (hcpu : s.cpu i = .resume prev next) : Inv C (s.taskSchedResume i next prev) := by
  cases prev with
  | none => exact h.arrive hcpu
  | some p =>
    have hapart := h.apart i
    rw [hcpu] at hapart
    obtain ⟨why, hv⟩ := (h.placed p).left (i := i) (by simp [hcpu, Cpu.role])
    have hlock := lock_of_view hv rfl
    -- the task before leaves first, and the next one then finds itself alone
    have hsettled : Inv C ((s.setTask p { s.task p with oncpu := none, lock := none }).setCpu i
        (.resume none next)) := by
      refine h.moved_cpu (moves_settle hv hcpu (hapart p rfl)) rfl rfl (fun _ hc => by cases hc)
        (h.core.setTask ?_ ?_ ?_ rfl)
      · exact fun w hw => absurd hw (h.core.no_peek hlock (by simp) w)
      · exact fun k hk => h.core.announced p k hk
      · exact fun _ => ⟨rfl, rfl⟩
    have harrive := hsettled.arrive (i := i) (by simp [Sys.setCpu]; rfl)
    have hsame : ((s.setTask p { s.task p with oncpu := none, lock := none }).setCpu i
        (.resume none next)).setCpu i (.run next) =
        (s.setTask p { s.task p with oncpu := none, lock := none }).setCpu i (.run next) := by
      simp [Sys.setCpu]
    rw [hsame] at harrive
    exact harrive

theorem Inv.taskSched (hs : s.taskSched i = some s') : Inv C s' := by
  rw [Sys.taskSched] at hs
  split at hs
  next => cases hs
  next hcpu =>
    obtain rfl := some.inj hs
    exact h.setCpu (fun u => by simp [hcpu, Cpu.role]) trivial
  next t hcpu =>
    obtain rfl := some.inj hs
    exact h.schedCurr hcpu
  next curr hcpu =>
    obtain rfl := some.inj hs
    exact h.pickNext hcpu
  next curr next hcpu => exact h.lockNext hcpu hs
  next prev next hcpu =>
    obtain rfl := some.inj hs
    exact h.taskSchedResume hcpu

end

/-! ## The wakers -/

/-- A waker moves and no task does. -/
theorem Inv.same_views (h : Inv C s) (hview : ∀ u, s'.view u = s.view u)
    (halive : s'.panicked = s.panicked) (hcpu : s'.cpu = s.cpu) (hcore : Core C s') : Inv C s' where
  alive := halive.trans h.alive
  placed u := by
    rw [Placed, hview u]
    exact h.placed u
  apart i := by
    rw [hcpu]
    exact h.apart i
  core := hcore

theorem sleepQueue_nodup (h : ∀ t, Placed C s t) : s.sleepQueue.Nodup := by
  refine List.nodup_iff_count_le_one.2 fun t => ?_
  obtain ⟨st, hst⟩ := h t
  have hcount : s.sleepQueue.count t = (st.view C).sleeping := congrArg sleeping hst
  rw [hcount]
  cases st with
  | exec i pc => cases pc <;> simp [Stage.view, away, Pc.published]
  | leave i why | left i why => cases why <;> simp [Stage.view, Why.state]
  | unborn | asleep | moving | ready | picked | arrive | dead => simp [Stage.view, away]

section

variable (h : Inv C s)

include h

/-- A waker outside of the sleep queue goes on with its code, and with it the lock of a condition
changes. -/
theorem Inv.setWaker_holder {o : Nat → Option Party}
    (hw : s.waker w = old) (hgo : old.GoesOn new) (hpeek : ∀ t, new ≠ .peek t)
    (hhand : new.hand = old.hand)
    (hlocks : Lib.Consistent o (Function.update (s.holding C) (.waker w) (new.lockOf.map C.lock))) :
    Inv C (({ s with holder := o } : Sys).setWaker w new) := by
  subst hw
  exact h.same_views (fun u => view_setWaker_of_hand { s with holder := o } hhand) rfl rfl
    (h.core.setWaker_holder (fun t ht => absurd ht (hpeek t)) rfl hgo hlocks)

/-- It stays in the lock it is in. -/
theorem Inv.setWaker {old : Waker} (new : Waker) (hw : s.waker w = old)
    (hgo : old.GoesOn new) (hpeek : ∀ t, new ≠ .peek t) (hhand : new.hand = old.hand)
    (hlock : new.lockOf = old.lockOf) : Inv C (s.setWaker w new) := by
  subst hw
  exact h.same_views (fun u => view_setWaker_of_hand s hhand) rfl rfl
    (h.core.setWaker (fun t ht => absurd ht (hpeek t)) rfl hgo hlock)

/-- The waker has the sleep queue to itself and goes on with it, or gives it up. -/
theorem Inv.setScan {old : Waker} (new : Waker) (hw : s.waker w = old)
    (hlock : new.lockOf = old.lockOf) (hhand : new.hand = old.hand) (hpeek : ∀ t, new ≠ .peek t)
    (hidle : ∀ v, s.sleepQueueLock = some v → v = w) (hscan : ScanOk C s new)
    (hwaking : ∀ k t, old.waking = some k → t ∈ s.sleepQueue →
      (s.task t).pc.sleepsOn = some k → new.waking = some k) :
    Inv C (({ s with sleepQueueLock := if new.scanning then some w else none } : Sys).setWaker w
      new) := by
  subst hw
  exact h.same_views (fun u => view_setWaker_of_hand { s with sleepQueueLock := _ } hhand) rfl rfl
    (h.core.setScan hlock hpeek hidle rfl hscan hwaking)

theorem Inv.wakeVisit {p : Nat} {rest : List Nat}
    (hw : s.waker w = .scan k held (p :: rest) retry) :
    Inv C (s.wakeVisit C w k held p rest retry) := by
  have hscan := h.core.visited w
  rw [hw] at hscan
  obtain ⟨done, hsplit, hseen⟩ := hscan
  obtain ⟨howner, hidle⟩ := h.core.owner (w := w) (by rw [hw]; rfl)
  have hmem : p ∈ s.sleepQueue := by simp [hsplit]
  have hsplit' : s.sleepQueue = (done ++ [p]) ++ rest := by simp [hsplit]
  have hlocked : ({ s with sleepQueueLock := some w } : Sys) = s := by rw [← howner]
  -- the waker goes on to the next entry
  have hgo (retry' : Bool)
      (hnone : retry' = false → ∀ q ∈ done ++ [p], (s.task q).chan ≠ some (C.chan k)) :
      Inv C (s.setWaker w (.scan k held rest retry')) := by
    have hnext : Inv C (({ s with sleepQueueLock := some w } : Sys).setWaker w
        (.scan k held rest retry')) := by
      refine h.setScan (.scan k held rest retry') hw ?_ rfl (by simp) hidle
        ⟨done ++ [p], hsplit', hnone⟩ fun _ _ hk _ _ => hk
      cases held <;> rfl
    rw [hlocked] at hnext
    exact hnext
  rw [Sys.wakeVisit]
  split
  next hother =>
    refine hgo retry fun hretry q hq => ?_
    rcases List.mem_append.1 hq with hin | hlast
    · exact hseen hretry q hin
    · rw [List.mem_singleton.1 hlast]
      exact hother.resolve_left fun hc => hc ((h.placed p).sleepsOn hmem).1
  next hmatch =>
    split
    next hlock => exact hgo true fun hc => by cases hc
    next hlock =>
      have hfree : (s.task p).lock = none := by simpa using hlock
      obtain ⟨c, k', hv⟩ := (h.placed p).asleep hmem hfree
      have hcore : Core C (({ s with sleepQueueLock := none } : Sys).setWaker w
          (.join k held p)) := by
        refine h.core.setScan ?_ (fun t ht => by cases ht) hidle rfl trivial ?_
        · rw [hw]
          cases held <;> rfl
        · intro k' t hk _ _
          rw [hw] at hk
          exact hk
      have hnodup := sleepQueue_nodup h.placed
      have hm : Moves C s ((s.wakeUp p).setWaker w (.join k held p)) p (.moving w c k') :=
        moves_wakeUp hv (by rw [hw]; rfl) rfl
      exact h.moved hm rfl rfl (hcore.wakeUp (p := p) rfl hnodup)

theorem Inv.wakeSeek (hw : s.waker w = .spec t) (hfree : s.sleepQueueLock = none) :
    Inv C (s.wakeSeek w t) := by
  rw [Sys.wakeSeek]
  split
  next hout => exact h.setWaker _ hw ⟨rfl, rfl, fun k hk => by cases hk⟩ (by simp) rfl rfl
  next hin =>
    have hmem : t ∈ s.sleepQueue := by
      by_contra hc
      exact hin (Or.inl hc)
    split
    next hlock => exact h
    next hlock =>
      have hunlocked : (s.task t).lock = none := by simpa using hlock
      obtain ⟨c, k, hv⟩ := (h.placed t).asleep hmem hunlocked
      have hcore := h.core.wakeUp hfree (p := t) (sleepQueue_nodup h.placed)
      exact h.moved (moves_wakeUp hv (by rw [hw]; rfl) rfl) rfl rfl
        (hcore.setWaker (fun t ht => by cases ht) hw ⟨rfl, rfl, fun k hk => by cases hk⟩ rfl)

/-- A waker passes a sleeper on to the scheduler. -/
theorem Inv.join {p here target : Nat} (hw : s.waker w = old)
    (hgo : old.GoesOn new) (hpeek : ∀ t, new ≠ .peek t) (hbefore : old.hand = some p)
    (hafter : new.hand = none) (hlock : new.lockOf = old.lockOf) :
    Inv C ((s.taskJoin p here target).setWaker w new) := by
  subst hw
  obtain ⟨c, k, hv⟩ := (h.placed p).moving hbefore
  obtain ⟨hjoin, hm⟩ := moves_join here target hv hbefore hafter
  rw [hjoin]
  exact h.moved hm rfl rfl (h.core.addTail.setWaker (fun t ht => absurd ht (hpeek t)) rfl hgo hlock)

end

/-- Neither the task that is looked at nor any other moves. -/
theorem view_setLock (s : Sys) (hbefore : (s.task t).lock ≠ some .self)
    (hafter : o ≠ some .self) : (s.setTask t { s.task t with lock := o }).view u = s.view u := by
  by_cases hu : u = t
  · subst hu
    have hown : (o == some .self) = (s.view u).own := by
      simp [Sys.view, hbefore, hafter]
    rw [view_setTask]
    show ({ s.view u with own := o == some .self } : View) = _
    rw [hown]
  · exact view_setTask_of_ne s _ hu

section

variable (h : Inv C s)

include h

/-- `task_wait` takes the lock of a child. -/
theorem Inv.peek (hw : s.waker w = .out) (hlock : (s.task t).lock = none) :
    Inv C ((s.setTask t { s.task t with lock := some (.peer w) }).setWaker w (.peek t)) := by
  have hcore : Core C (s.setTask t { s.task t with lock := some (.peer w) }) :=
    h.core.setTask (fun v hv => absurd hv (h.core.no_peek hlock (by simp) v))
      (fun k hk => h.core.announced t k hk) (fun _ => ⟨rfl, rfl⟩) rfl
  have hlooked : Inv C (s.setTask t { s.task t with lock := some (.peer w) }) :=
    h.same_views (fun u => view_setLock s (by simp [hlock]) (by simp)) rfl rfl hcore
  have hw' : (s.setTask t { s.task t with lock := some (.peer w) }).waker w = .out := hw
  refine hlooked.same_views (fun u => view_setWaker_of_hand _ (by rw [hw']; rfl)) rfl rfl
    (hcore.setWaker (fun t' ht => ?_) hw ⟨rfl, rfl, fun k hk => by cases hk⟩ rfl)
  cases ht
  simp [Sys.setTask]

/-- It drops it again. -/
theorem Inv.unpeek (hw : s.waker w = .peek t) :
    Inv C ((s.setTask t { s.task t with lock := none }).setWaker w .out) := by
  have hlock := h.core.peeks w t hw
  have hout := h.setWaker .out hw ⟨rfl, rfl, fun k hk => by cases hk⟩ (by simp) rfl rfl
  refine hout.same_views (fun u => view_setLock (s.setWaker w .out) ?_ (by simp)) rfl rfl
    (hout.core.setTask (fun v hv => ?_) (fun k hk => h.core.announced t k hk)
      (fun _ => ⟨rfl, rfl⟩) rfl)
  · show (s.task t).lock ≠ _
    simp [hlock]
  -- another caller would have the lock at the same time
  by_cases hvw : v = w
  · subst hvw
    simp [Sys.setWaker] at hv
  have hpeer := h.core.peeks v t (by simpa [Sys.setWaker, hvw] using hv)
  rw [hlock] at hpeer
  cases hpeer
  exact absurd rfl hvw

/-- The end of the sleep queue: a scan that need not be repeated has left no sleeper of its
condition behind. -/
theorem Inv.finish (hw : s.waker w = .scan k held [] retry) :
    Inv C (({ s with sleepQueueLock := none } : Sys).setWaker w (Sys.afterScan k held retry)) := by
  have hscan := h.core.visited w
  rw [hw] at hscan
  obtain ⟨done, hsplit, hseen⟩ := hscan
  rw [List.append_nil] at hsplit
  obtain ⟨-, hidle⟩ := h.core.owner (w := w) (by rw [hw]; rfl)
  cases retry with
  | true =>
    refine h.setScan (.wake k held) hw ?_ rfl (by simp) hidle trivial fun k' t hk _ _ => hk
    cases held <;> rfl
  | false =>
    have hnone : ∀ k' t, (Waker.scan k held [] false).waking = some k' → t ∈ s.sleepQueue →
        (s.task t).pc.sleepsOn ≠ some k' := by
      intro k' t hk hmem hon
      obtain rfl : k = k' := some.inj hk
      obtain ⟨k', hk', hchan⟩ := ((h.placed t).sleepsOn hmem).2
      obtain rfl : k = k' := some.inj (hon.symm.trans hk')
      exact hseen rfl t (hsplit ▸ hmem) hchan
    cases held with
    | true =>
      exact h.setScan (.holds k) hw rfl rfl (by simp) hidle trivial
        fun k' t hk hmem hon => absurd hon (hnone k' t hk hmem)
    | false =>
      exact h.setScan .out hw rfl rfl (by simp) hidle trivial
        fun k' t hk hmem hon => absurd hon (hnone k' t hk hmem)

theorem Inv.runWaker {op : Sys.WakeOp} (hs : s.runWaker C w op = some s') : Inv C s' := by
  unfold Sys.runWaker at hs
  split at hs
  next k hw =>
    -- takes the lock of a condition
    obtain ⟨hfree, rfl⟩ := Lib.guard_eq_some hs
    exact h.setWaker_holder hw ⟨rfl, rfl, fun k hk => by cases hk⟩ (by simp) rfl
      (h.core.locks.acquire hfree (by simp [Sys.holding, hw, Waker.lockOf]))
  next t hw =>
    obtain rfl := some.inj hs
    exact h.setWaker _ hw ⟨rfl, rfl, fun k hk => by cases hk⟩ (by simp) rfl rfl
  next t hw =>
    obtain ⟨hlock, rfl⟩ := Lib.guard_eq_some hs
    exact h.peek hw hlock
  next k hw =>
    obtain rfl := some.inj hs
    exact ⟨h.alive, h.placed, h.apart, h.core.clear⟩
  next k hw =>
    -- makes the condition true: from here on it is a waker of the condition
    obtain rfl := some.inj hs
    have hwake := h.setWaker (.wake k true) hw ⟨rfl, rfl, fun k hk => by cases hk⟩ (by simp) rfl rfl
    refine ⟨h.alive, hwake.placed, h.apart, hwake.core.setTrue (w := w) ?_ ?_⟩
    · simp [Sys.setWaker, Waker.lockOf]
    · simp [Sys.setWaker, Waker.waking]
  next k hw =>
    obtain rfl := some.inj hs
    exact h.setWaker_holder hw ⟨rfl, rfl, fun k hk => by cases hk⟩ (by simp) rfl
      (h.core.locks.release (by simp [Sys.holding, hw, Waker.lockOf]))
  next k hw =>
    -- drops the lock before it wakes
    obtain rfl := some.inj hs
    exact h.setWaker_holder hw ⟨rfl, rfl, fun k hk => hk⟩ (by simp) rfl
      (h.core.locks.release (by simp [Sys.holding, hw, Waker.lockOf]))
  next k held hw =>
    -- starts to walk the queue
    obtain ⟨hfree, rfl⟩ := Lib.guard_eq_some hs
    refine h.setScan (.scan k held s.sleepQueue false) hw ?_ rfl (by simp) (fun v hv => ?_)
      ⟨[], rfl, fun _ p hp => by cases hp⟩ fun k t hk _ _ => hk
    · cases held <;> rfl
    · rw [hfree] at hv
      cases hv
  next k held p rest retry hw =>
    obtain rfl := some.inj hs
    exact h.wakeVisit hw
  next k held retry hw =>
    obtain rfl := some.inj hs
    exact h.finish hw
  next k held p here target hw =>
    obtain rfl := some.inj hs
    refine h.join hw ⟨rfl, rfl, fun k hk => hk⟩ (by simp) rfl rfl ?_
    cases held <;> rfl
  next t hw =>
    obtain ⟨hfree, rfl⟩ := Lib.guard_eq_some hs
    exact h.wakeSeek hw hfree
  next t here target hw =>
    obtain rfl := some.inj hs
    exact h.join hw ⟨rfl, rfl, fun k hk => by cases hk⟩ (by simp) rfl rfl rfl
  next t hw =>
    obtain rfl := some.inj hs
    exact h.unpeek hw
  next => cases hs

theorem Inv.spawn {here target : Nat} (hs : s.spawn t here target = some s') : Inv C s' := by
  obtain ⟨hpc, rfl⟩ := Lib.guard_eq_some hs
  obtain ⟨c, hv⟩ := (h.placed t).unborn hpc
  obtain ⟨hjoin, hm⟩ := moves_spawn here target (h.placed t) hpc
  rw [hjoin]
  refine h.moved hm rfl rfl (Core.addTail (h.core.setTask ?_ ?_ ?_ ?_))
  · exact fun w hw => h.core.peeks w t hw
  · exact fun k hk => by cases hk
  · exact fun hmem => absurd hmem (not_mem_sleepQueue (congrArg sleeping hv))
  · rw [hpc]
    rfl

/-- Every action keeps the invariant. -/
theorem Inv.fire {a : Action} (hs : Sched.fire C a s = some s') : Inv C s' := by
  unfold Sched.fire at hs
  rw [h.alive] at hs
  cases a with
  | run i op =>
    replace hs : s.runCurrent C i op = some s' := hs
    unfold Sys.runCurrent at hs
    split at hs
    next t hcpu => exact h.runTask hcpu hs
    next hcpu =>
      obtain rfl := some.inj hs
      exact h.setCpu (fun u => by simp [hcpu, Cpu.role]) trivial
    next => cases hs
  | sched i => exact h.taskSched hs
  | wake w op => exact h.runWaker hs
  | spawn t here target => exact h.spawn hs

end

end Steps

theorem inv_boot (cond : Nat → Bool) : Inv C (boot cond) where
  alive := rfl
  placed _ := ⟨.unborn 0, rfl⟩
  apart _ := trivial
  core :=
    { locks := fun l p => by cases p <;> simp [boot, Sys.holding, freshTask, Pc.holds, Waker.lockOf]
      peeks := fun w t hw => by cases hw
      announced := fun t k hk => by cases hk
      scanner := fun w => by simp [boot, Waker.scanning]
      visited := fun w => trivial
      woken := fun k t _ ht _ => by cases ht }

/-- The invariant holds in every reachable state. -/
theorem inv_of_reachable {cond : Nat → Bool} {s : Sys} (hrun : Reachable C cond s) : Inv C s :=
  Lib.Run.invariant (fun _ _ ⟨_, ha⟩ h => h.fire ha) hrun (inv_boot C cond)

end BrkKernel.Sched
