import BrkKernel.Kern.SchedInv

/-!
# The locks of the conditions, and who still has to be woken

`Core` is what the locks, the wakers and the sleep queue have to do with each other: mutual
exclusion, what a scan of `task_wake_all` has seen so far, and that a true condition with a sleeper
has a waker at work.
-/

set_option autoImplicit false

namespace BrkKernel.Sched

open Function Sys

variable {p old : Waker} {lock : Option Nat} {r : Task} {pc : Pc}

/-- The condition whose lock a task has. -/
def Pc.holds : Pc → Option Nat
  | .test k | .inside k | .enqueue k | .release k => some k
  | _ => none

/-- The condition whose lock a waker has. -/
def Waker.lockOf : Waker → Option Nat
  | .holds k | .wake k true | .scan k true _ _ | .join k true _ => some k
  | _ => none

/-- The waker walks the sleep queue. -/
def Waker.scanning : Waker → Bool
  | .scan _ _ _ _ => true
  | _ => false

/-- The waker is between the store that makes the condition true and the end of
`task_wake_all`. -/
def Waker.waking : Waker → Option Nat
  | .wake k _ | .scan k _ _ _ | .join k _ _ => some k
  | _ => none

/-- A waker outside of the sleep queue goes on outside of it, and is still a waker. -/
structure Waker.GoesOn (old new : Waker) : Prop where
  before : old.scanning = false
  after : new.scanning = false
  waking : ∀ k, old.waking = some k → new.waking = some k

variable (C : Conds)

/-- The lock of a condition that a party is in. -/
def Sys.holding (s : Sys) : Party → Option Nat
  | .task t => (s.task t).pc.holds.map C.lock
  | .waker w => (s.waker w).lockOf.map C.lock

/-- What a scan has seen: entries of other channels, as long as it has not to be repeated. -/
def ScanOk (s : Sys) : Waker → Prop
  | .scan k _ rest retry => ∃ done, s.sleepQueue = done ++ rest ∧
      (retry = false → ∀ p ∈ done, (s.task p).chan ≠ some (C.chan k))
  | _ => True

structure Core (s : Sys) : Prop where
  locks : Lib.Consistent s.holder (s.holding C)
  peeks : ∀ w t, s.waker w = .peek t → (s.task t).lock = some (.peer w)
  announced : ∀ t k, (s.task t).pc.announced = some k → s.cond k = false
  scanner : ∀ w, s.sleepQueueLock = some w ↔ (s.waker w).scanning = true
  visited : ∀ w, ScanOk C s (s.waker w)
  woken : ∀ k t, s.cond k = true → t ∈ s.sleepQueue → (s.task t).pc.sleepsOn = some k →
    ∃ w, (s.waker w).waking = some k

section Core

variable {C} {s : Sys} {t w k : Nat} {o : Nat → Option Party}

theorem holding_setTask (r : Task) : (s.setTask t r).holding C =
      update (s.holding C) (.task t) (r.pc.holds.map C.lock) := by
  funext p
  cases p with
  | task u =>
    by_cases hu : u = t
    · subst hu
      simp [holding, setTask]
    · simp [holding, setTask, hu]
  | waker w => simp [holding, setTask]

theorem holding_setWaker (p : Waker) : (s.setWaker w p).holding C =
      update (s.holding C) (.waker w) (p.lockOf.map C.lock) := by
  funext q
  cases q with
  | task u => simp [holding, setWaker]
  | waker v =>
    by_cases hv : v = w
    · subst hv
      simp [holding, setWaker]
    · simp [holding, setWaker, hv]

/-- A task that is about to sleep has the lock of the condition. -/
theorem Pc.holds_of_announced (h : pc.announced = some k) : pc.holds = some k := by
  cases pc with
  | enqueue | release => exact h
  | create | start | user | test | inside | asleep | relock | yield | exit => cases h

theorem ScanOk.of_idle (h : p.scanning = false) : ScanOk C s p := by
  cases p with
  | scan => cases h
  | out | holds | wake | join | spec | specJoin | peek => trivial

/-- A scan goes on if the sleep queue and the channels on it stay. -/
theorem ScanOk.congr {s' : Sys} (h : ScanOk C s p) (hq : s'.sleepQueue = s.sleepQueue)
    (hchan : ∀ t ∈ s.sleepQueue, (s'.task t).chan = (s.task t).chan) : ScanOk C s' p := by
  cases p with
  | scan k held rest retry =>
    obtain ⟨done, hsplit, hseen⟩ := h
    refine ⟨done, hq.trans hsplit, fun hretry p hp => ?_⟩
    rw [hchan p (hsplit ▸ List.mem_append_left _ hp)]
    exact hseen hretry p hp
  | out | holds | wake | join | spec | specJoin | peek => trivial

variable (h : Core C s)

include h

/-- Nobody walks the sleep queue while its lock is free. -/
theorem Core.idle_of_free (hfree : s.sleepQueueLock = none) (w : Nat) :
    (s.waker w).scanning = false := by
  by_contra hscan
  have hlock := (h.scanner w).2 (by simpa using hscan)
  simp [hfree] at hlock

section Task

variable (hpeer : ∀ w, s.waker w = .peek t → r.lock = some (.peer w))
  (hann : ∀ k, r.pc.announced = some k → s.cond k = false)
  (hkeep : t ∈ s.sleepQueue → r.chan = (s.task t).chan ∧ r.pc.sleepsOn = (s.task t).pc.sleepsOn)

include hpeer hann hkeep

/-- A task changes, and with it the lock of a condition. -/
theorem Core.setTask_holder
    (hlocks : Lib.Consistent o (update (s.holding C) (.task t) (r.pc.holds.map C.lock))) :
    Core C (({ s with holder := o } : Sys).setTask t r) where
  locks := by
    rw [holding_setTask]
    exact hlocks
  peeks w := (forall_update_iff s.task fun u r => s.waker w = .peek u → r.lock = some (.peer w)).2
    ⟨hpeer w, fun u _ => h.peeks w u⟩
  announced := (forall_update_iff s.task fun _ r =>
    ∀ k, r.pc.announced = some k → s.cond k = false).2 ⟨hann, fun u _ => h.announced u⟩
  scanner := h.scanner
  visited w := (h.visited w).congr rfl <| (forall_update_iff s.task fun u r =>
    u ∈ s.sleepQueue → r.chan = (s.task u).chan).2 ⟨fun hu => (hkeep hu).1, fun _ _ _ => rfl⟩
  woken k u hcond := by
    refine (forall_update_iff s.task fun u r => u ∈ s.sleepQueue → r.pc.sleepsOn = some k →
      ∃ w, (s.waker w).waking = some k).2 ⟨fun hu hk => ?_, fun u _ => h.woken k u hcond⟩ u
    exact h.woken k t hcond hu ((hkeep hu).2.symm.trans hk)

/-- A task changes and stays in the lock it is in. -/
theorem Core.setTask (hholds : r.pc.holds = (s.task t).pc.holds) : Core C (s.setTask t r) := by
  refine h.setTask_holder hpeer hann hkeep (h.locks.stay ?_)
  rw [hholds]
  rfl

end Task

/-- A task takes the free lock of a condition. -/
theorem Core.lockTask (hout : (s.task t).pc.holds = none)
    (hfree : s.holder (C.lock k) = none) (hq : t ∉ s.sleepQueue) :
    Core C ((s.setHolder (C.lock k) (some (.task t))).setTask t
      { s.task t with pc := .test k }) := by
  refine h.setTask_holder (fun w hw => h.peeks w t hw) (fun _ hk => by cases hk)
    (fun hmem => absurd hmem hq) ?_
  exact h.locks.acquire hfree (by simp [holding, hout])

/-- A task leaves the lock of a condition. -/
theorem Core.unlockTask (hin : (s.task t).pc.holds = some k) (hout : pc.holds = none)
    (hann : pc.announced = none) (hkeep : t ∈ s.sleepQueue → pc.sleepsOn = (s.task t).pc.sleepsOn) :
    Core C ((s.setHolder (C.lock k) none).setTask t { s.task t with pc := pc }) := by
  refine h.setTask_holder (fun w hw => h.peeks w t hw) (fun _ hk => ?_)
    (fun hmem => ⟨rfl, hkeep hmem⟩) ?_
  · rw [hann] at hk
    cases hk
  · rw [hout]
    exact h.locks.release (by simp [holding, hin])

/-- The sleep queue changes while nobody walks it. The condition of a task that is new on it is
false. -/
theorem Core.setQueue {q : List Nat} (hfree : s.sleepQueueLock = none)
    (hnew : ∀ u ∈ q, u ∉ s.sleepQueue → ∀ k, (s.task u).pc.sleepsOn = some k → s.cond k = false) :
    Core C { s with sleepQueue := q } where
  locks := h.locks
  peeks := h.peeks
  announced := h.announced
  scanner := h.scanner
  visited w := ScanOk.of_idle (h.idle_of_free hfree w)
  woken k u hcond hu hk := by
    by_cases hmem : u ∈ s.sleepQueue
    · exact h.woken k u hcond hmem hk
    · cases hcond.symm.trans (hnew u hu hmem k hk)

/-- `list_add_tail(&task->queue, &sleep_queue)`. -/
theorem Core.publish (hpc : (s.task t).pc = .enqueue k) (hfree : s.sleepQueueLock = none)
    (hq : t ∉ s.sleepQueue) :
    Core C (({ s with sleepQueue := s.sleepQueue ++ [t] } : Sys).setTask t
      { s.task t with pc := .release k, linked := true }) := by
  have hfalse : s.cond k = false := h.announced t k (by rw [hpc]; rfl)
  have hset : Core C (s.setTask t { s.task t with pc := .release k, linked := true }) := by
    refine h.setTask (fun w hw => h.peeks w t hw) ?_ (fun hmem => absurd hmem hq) (by rw [hpc]; rfl)
    rintro _ ⟨⟩
    exact hfalse
  refine hset.setQueue hfree fun u hu hout k' hk => ?_
  obtain rfl : u = t := List.mem_singleton.1 ((List.mem_append.1 hu).resolve_left hout)
  obtain rfl : k = k' := by simpa [Sys.setTask, Pc.sleepsOn] using hk
  exact hfalse

/-- A condition changes. Where it becomes true, nobody is about to sleep on it and a waker is at
work. -/
theorem Core.setCond {b : Bool} (hann : b = true → ∀ u, (s.task u).pc.announced ≠ some k)
    (hwaking : b = true → ∃ w, (s.waker w).waking = some k) : Core C (s.setCond k b) where
  locks := h.locks
  peeks := h.peeks
  announced u := by
    refine (forall_update_iff s.cond fun k' c => (s.task u).pc.announced = some k' → c = false).2
      ⟨fun hk => ?_, fun k' _ => h.announced u k'⟩
    cases b with
    | false => rfl
    | true => exact absurd hk (hann rfl u)
  scanner := h.scanner
  visited w := (h.visited w).congr rfl fun _ _ => rfl
  woken := (forall_update_iff s.cond fun k' c => ∀ u, c = true → u ∈ s.sleepQueue →
      (s.task u).pc.sleepsOn = some k' → ∃ w, (s.waker w).waking = some k').2
    ⟨fun _ hb _ _ => hwaking hb, fun k' _ => h.woken k'⟩

/-- A condition becomes false. -/
theorem Core.clear : Core C (s.setCond k false) :=
  h.setCond (fun hb => by cases hb) fun hb => by cases hb

section

variable (hpeek : ∀ t, p = .peek t → (s.task t).lock = some (.peer w))

include hpeek

/-- A waker changes, and with it the lock of a condition and that of the sleep queue. -/
theorem Core.setWaker_locks
    (hlocks : Lib.Consistent o (update (s.holding C) (.waker w) (p.lockOf.map C.lock)))
    (hself : lock = some w ↔ p.scanning = true)
    (hothers : ∀ v, v ≠ w → (lock = some v ↔ (s.waker v).scanning = true)) (hscan : ScanOk C s p)
    (hwaking : ∀ k t, (s.waker w).waking = some k → t ∈ s.sleepQueue →
      (s.task t).pc.sleepsOn = some k → p.waking = some k) :
    Core C (({ s with holder := o, sleepQueueLock := lock } : Sys).setWaker w p) where
  locks := by
    rw [holding_setWaker]
    exact hlocks
  peeks := (forall_update_iff s.waker fun v q => ∀ u, q = .peek u →
    (s.task u).lock = some (.peer v)).2 ⟨hpeek, fun v _ => h.peeks v⟩
  announced := h.announced
  scanner := (forall_update_iff s.waker fun v q => lock = some v ↔ q.scanning = true).2
    ⟨hself, hothers⟩
  visited v := ScanOk.congr ((forall_update_iff s.waker fun _ q => ScanOk C s q).2
    ⟨hscan, fun v _ => h.visited v⟩ v) rfl fun _ _ => rfl
  woken k u hcond hu hk := by
    obtain ⟨v, hv⟩ := h.woken k u hcond hu hk
    exact ⟨v, (forall_update_iff s.waker fun v q => (s.waker v).waking = some k →
      q.waking = some k).2 ⟨fun hv => hwaking k u hv hu hk, fun _ _ hv => hv⟩ v hv⟩

/-- A waker outside of the sleep queue changes, and with it the lock of a condition. -/
theorem Core.setWaker_holder (hw : s.waker w = old) (hgo : old.GoesOn p)
    (hlocks : Lib.Consistent o (update (s.holding C) (.waker w) (p.lockOf.map C.lock))) :
    Core C (({ s with holder := o } : Sys).setWaker w p) := by
  subst hw
  refine h.setWaker_locks hpeek hlocks ?_ (fun v _ => h.scanner v) (.of_idle hgo.after)
    fun k _ hk _ _ => hgo.waking k hk
  rw [h.scanner, hgo.before, hgo.after]

/-- A waker stays in the lock it is in. -/
theorem Core.setWaker (hw : s.waker w = old) (hgo : old.GoesOn p) (hlock : p.lockOf = old.lockOf) :
    Core C (s.setWaker w p) := by
  refine h.setWaker_holder hpeek hw hgo (h.locks.stay ?_)
  rw [hlock, ← hw]
  rfl

end

/-- A condition becomes true while a waker of it has its lock. -/
theorem Core.setTrue (hlock : (s.waker w).lockOf = some k) (hwaking : (s.waker w).waking = some k) :
    Core C (s.setCond k true) := by
  refine h.setCond (fun _ u hk => ?_) fun _ => ⟨w, hwaking⟩
  -- a task that is about to sleep would have the waker's lock
  have htask : s.holding C (.task u) = some (C.lock k) := by
    have hholds : (s.task u).pc.holds = some k := Pc.holds_of_announced hk
    simp [holding, hholds]
  have hwaker : s.holding C (.waker w) = some (C.lock k) := by simp [holding, hlock]
  cases h.locks.exclusive htask hwaker

/-! ### Walking the sleep queue -/

/-- The waker that walks the sleep queue owns it. -/
theorem Core.owner (hscan : (s.waker w).scanning = true) :
    s.sleepQueueLock = some w ∧ ∀ v, s.sleepQueueLock = some v → v = w := by
  have howner := (h.scanner w).2 hscan
  exact ⟨howner, fun v hv => Option.some.inj (hv.symm.trans howner)⟩

theorem Core.idle_of_ne {v : Nat} (hidle : ∀ v', s.sleepQueueLock = some v' → v' = w)
    (hvw : v ≠ w) : (s.waker v).scanning = false := by
  by_contra hscan
  exact hvw (hidle v ((h.scanner v).2 (by simpa using hscan)))

/-- A waker that owns the sleep queue changes its view of the queue, or gives it up. Nobody else
walks the queue. -/
theorem Core.setScan (hlock : p.lockOf = (s.waker w).lockOf)
    (hpeek : ∀ t, p ≠ .peek t) (hidle : ∀ v, s.sleepQueueLock = some v → v = w)
    (howner : lock = if p.scanning then some w else none) (hscan : ScanOk C s p)
    (hwaking : ∀ k t, (s.waker w).waking = some k → t ∈ s.sleepQueue →
      (s.task t).pc.sleepsOn = some k → p.waking = some k) :
    Core C (({ s with sleepQueueLock := lock } : Sys).setWaker w p) := by
  refine h.setWaker_locks (fun t ht => absurd ht (hpeek t)) (h.locks.stay ?_) ?_ (fun v hv => ?_)
    hscan hwaking
  · rw [hlock]
    rfl
  · rw [howner]
    cases p.scanning <;> simp
  · rw [howner, h.idle_of_ne hidle hv]
    cases p.scanning <;> simp [Ne.symm hv]

/-- A sleeper is taken off the sleep queue by the only waker on it. -/
theorem Core.wakeUp {p : Nat} (hidle : s.sleepQueueLock = none) (hnodup : s.sleepQueue.Nodup) :
    Core C (s.wakeUp p) := by
  have herase := h.setQueue hidle (q := s.sleepQueue.erase p) fun u hu hout =>
    absurd (List.mem_of_mem_erase hu) hout
  exact herase.setTask (fun w hw => h.peeks w p hw) (fun k hk => h.announced p k hk)
    (fun hmem => absurd hmem hnodup.not_mem_erase) rfl

end Core

end BrkKernel.Sched
