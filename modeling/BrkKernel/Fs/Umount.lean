import BrkKernel.Kern.Base
import BrkKernel.Lib.Actors

/-!
# Unmounting against path walks

`fs_mount_state_lookup`, `follow_mount` and `do_umount` on one mount, by any number of tasks. A
step is a section under a lock or an access to the reference count. The lookup finds the mount under
the lock of the hash table, but takes its reference after it has left the lock, so an unmount that
comes in between frees the mount under the walk (`umount_meets_walk`).

A walk gets no reference after the mount was unhashed, and the mount is freed with its last
reference, as long as no walk stands between its lookup and its reference when the mount is
unhashed; and only then (`umount_excludes_iff`).
-/

set_option autoImplicit false

namespace BrkKernel.Mount

open Lib Function

/-- Where a task is. It has `k + 1` references of its own in the states with a number `k`. -/
inductive Pc where
  | idle
  /-- `follow_mount` has seen `DCACHE_MOUNTED`. -/
  | flagged
  /-- The lookup has found the mount and has left the lock. -/
  | found
  | holding (k : Nat)
  /-- `do_umount` is in `mount_lock`. -/
  | locked (k : Nat)
  | unhashed (k : Nat)
  | cleared (k : Nat)
  /-- `do_umount` has left `mount_lock`. -/
  | detached (k : Nat)
deriving DecidableEq, Repr

/-- The references that a task is to put: its own, and after the unhashing the one of the
topology. -/
def Pc.refs : Pc → Nat
  | .idle | .flagged | .found => 0
  | .holding k | .locked k => k + 1
  | .unhashed k | .cleared k | .detached k => k + 2

/-- A mount and the tasks. `ret` is what a task's last `do_umount` returned, and `late` says that a
walk got a reference after the mount was unhashed. -/
structure MountSys where
  pc : Nat → Pc
  count : Nat
  hashed : Bool
  /-- `DCACHE_MOUNTED` of the mount point. -/
  mounted : Bool
  mountLock : Bool
  freed : Bool
  ret : Nat → Option (Except Errno Unit)
  late : Bool

/-- The actions of a task. -/
inductive Act where
  | isMounted | lookup | take | get | put | lock | check | clear | unlock | drop
deriving DecidableEq, Repr

namespace MountSys

/-- A mount that `graft_tree` has put into the tree. -/
def start : MountSys := ⟨fun _ => .idle, 1, true, true, false, false, fun _ => none, false⟩

def umountRet (s : MountSys) (t : Nat) (r : Except Errno Unit) : MountSys :=
  { s with ret := update s.ret t (some r) }

def move (s : MountSys) (t : Nat) (pc : Pc) : MountSys := { s with pc := update s.pc t pc }

/-- `fs_mount_state_put`. -/
def putRef (s : MountSys) : MountSys :=
  { s with count := s.count - 1, freed := s.freed || s.count - 1 == 0 }

/-- The action `a` of task `t`. -/
def act (s : MountSys) (t : Nat) (a : Act) : Option MountSys :=
  match a, s.pc t with
  | .isMounted, .idle => some (s.move t (if s.mounted then .flagged else .idle))
  | .lookup, .flagged => some (s.move t (if s.hashed then .found else .idle))
  | .take, .found =>
    some { s.move t (.holding 0) with count := s.count + 1, late := s.late || !s.hashed }
  | .get, .holding k => some { s.move t (.holding (k + 1)) with count := s.count + 1 }
  | .put, .holding 0 => some (s.move t .idle).putRef
  | .put, .holding (k + 1) => some (s.move t (.holding k)).putRef
  | .lock, .holding k =>
    if s.mountLock = false then some { s.move t (.locked k) with mountLock := true } else none
  | .check, .locked k =>
    if s.hashed = true ∧ s.count = 2 then some { s.move t (.unhashed k) with hashed := false }
    else
      some ({ s.move t (.holding k) with mountLock := false }.umountRet t
        (.error (if 2 < s.count then .ebusy else .einval)))
  | .clear, .unhashed k => some { s.move t (.cleared k) with mounted := false }
  | .unlock, .cleared k => some { s.move t (.detached k) with mountLock := false }
  | .drop, .detached k => some ((s.move t (.holding k)).putRef.umountRet t (.ok ()))
  | _, _ => none

/-- The check of `do_umount` unhashes the mount. -/
def Unhashes (s : MountSys) (a : Act) : Prop := a = .check ∧ s.hashed = true ∧ s.count = 2

/-- No walk stands between its lookup and its reference. -/
def Quiet (n : Nat) (s : MountSys) : Prop := ∀ u < n, s.pc u ≠ .found

/-- A step of one of `n` tasks. -/
def Step (n : Nat) (s s' : MountSys) : Prop := ∃ t < n, ∃ a, s.act t a = some s'

/-- A step that unhashes the mount only when no walk is at its lookup. -/
def QuietStep (n : Nat) (s s' : MountSys) : Prop :=
  ∃ t < n, ∃ a, s.act t a = some s' ∧ (s.Unhashes a → s.Quiet n)

/-- No walk got a reference after the unhashing, and a mount that is freed has no references. -/
def Excluded (n : Nat) (s : MountSys) : Prop :=
  s.late = false ∧ (s.freed = true → ∀ t < n, (s.pc t).refs = 0)

end MountSys

open MountSys

section Steps

variable {n t : Nat} {a : Act} {s s' : MountSys} {pc : Pc}

/-- The count is that of the references, and a walk that has found the mount found it hashed. -/
structure Inv (n : Nat) (s : MountSys) : Prop where
  count : s.count = s.hashed.toNat + total n Pc.refs s.pc
  found : ∀ u < n, s.pc u = .found → s.hashed = true
  late : s.late = false
  freed : s.freed = true → s.count = 0

section

variable (h : Inv n s)

include h

theorem Inv.excluded : s.Excluded n := by
  refine ⟨h.late, fun hf t ht => ?_⟩
  have hle := apply_le_total Pc.refs s.pc ht
  have hcount := h.count
  have hzero := h.freed hf
  omega

/-- The moving task accounts for the change of the count. -/
theorem Inv.moved (ht : t < n) (hpc : s'.pc = update s.pc t pc)
    (hcount : s'.count + (s.pc t).refs + s.hashed.toNat = s.count + pc.refs + s'.hashed.toNat)
    (hhash : s'.hashed = s.hashed ∨ s.Quiet n) (hfound : pc = .found → s'.hashed = true)
    (hlate : s'.late = false) (hfreed : s'.freed = true → s'.count = 0) : Inv n s' := by
  refine ⟨?_, fun u hlt hu => ?_, hlate, hfreed⟩
  · have hold := h.count
    have hnew := total_update Pc.refs s.pc pc ht
    rw [hpc]
    omega
  · rw [hpc] at hu
    by_cases hut : u = t
    · subst hut
      rw [update_self] at hu
      exact hfound hu
    rw [update_of_ne hut] at hu
    rcases hhash with hsame | hquiet
    · exact hsame.trans (h.found u hlt hu)
    · exact absurd hu (hquiet u hlt)

/-- A task with a reference keeps the mount from being freed. -/
theorem Inv.not_freed (ht : t < n) (hrefs : 0 < s.hashed.toNat + (s.pc t).refs) :
    s.freed = false ∧ 0 < s.count := by
  have hle := apply_le_total Pc.refs s.pc ht
  have hcount := h.count
  refine ⟨Bool.eq_false_iff.2 fun hf => ?_, by omega⟩
  have hzero := h.freed hf
  omega

/-- A reference is put. -/
theorem Inv.put (ht : t < n) (hrefs : (s.pc t).refs = pc.refs + 1)
    (hpc : pc ≠ .found) : Inv n (s.move t pc).putRef := by
  obtain ⟨hf, hpos⟩ := h.not_freed ht (by omega)
  refine h.moved ht rfl ?_ (.inl rfl) (fun he => absurd he hpc) h.late fun hfree => ?_
  · simp only [putRef, move]
    omega
  · simpa [putRef, move, hf] using hfree

theorem Inv.umountRet {r : Except Errno Unit} : Inv n (s.umountRet t r) :=
  ⟨h.count, h.found, h.late, h.freed⟩

/-- Every step keeps the invariant, when no walk is at its lookup as the mount is unhashed. -/
theorem Inv.step (ht : t < n) (hact : s.act t a = some s')
    (hq : s.Unhashes a → s.Quiet n) : Inv n s' := by
  unfold act at hact
  split at hact
  next hpc =>
    cases hact
    refine h.moved ht rfl ?_ (.inl rfl) ?_ h.late h.freed
    · rw [hpc]
      split <;> rfl
    · split <;> nofun
  next hpc =>
    cases hact
    refine h.moved ht rfl ?_ (.inl rfl) ?_ h.late h.freed
    · rw [hpc]
      split <;> rfl
    · split
      next hh => exact fun _ => hh
      next => nofun
  next hpc =>
    -- the reference of a walk
    cases hact
    have hh := h.found t ht hpc
    obtain ⟨hf, -⟩ := h.not_freed ht (by rw [hh]; exact Nat.le_add_right 1 _)
    refine h.moved ht rfl ?_ (.inl rfl) nofun ?_ fun hfree => ?_
    · rw [hpc]
      rfl
    · simp [h.late, hh]
    · exact absurd (hf.symm.trans hfree) nofun
  next k hpc =>
    cases hact
    obtain ⟨hf, -⟩ := h.not_freed ht (by rw [hpc]; exact Nat.succ_le_of_lt (Nat.succ_pos _))
    refine h.moved ht rfl ?_ (.inl rfl) nofun h.late fun hfree => ?_
    · rw [hpc]
      simp only [Pc.refs, move]
      omega
    · exact absurd (hf.symm.trans hfree) nofun
  next hpc =>
    cases hact
    exact h.put ht (by rw [hpc]; rfl) nofun
  next k hpc =>
    cases hact
    exact h.put ht (by rw [hpc]; rfl) nofun
  next k hpc =>
    obtain ⟨-, rfl⟩ := guard_eq_some hact
    exact h.moved ht rfl (by rw [hpc]; rfl) (.inl rfl) nofun h.late h.freed
  next k hpc =>
    split at hact
    next hcond =>
      cases hact
      refine h.moved ht rfl ?_ (.inr (hq ⟨rfl, hcond⟩)) nofun h.late h.freed
      rw [hpc, hcond.1]
      rfl
    next =>
      cases hact
      exact h.moved ht rfl (by rw [hpc]; rfl) (.inl rfl) nofun h.late h.freed
  next k hpc =>
    cases hact
    exact h.moved ht rfl (by rw [hpc]; rfl) (.inl rfl) nofun h.late h.freed
  next k hpc =>
    cases hact
    exact h.moved ht rfl (by rw [hpc]; rfl) (.inl rfl) nofun h.late h.freed
  next k hpc =>
    cases hact
    have hput : Inv n (s.move t (.holding k)).putRef := h.put ht (by rw [hpc]; rfl) nofun
    exact hput.umountRet
  next => cases hact

end

theorem inv_start (n : Nat) : Inv n start := by
  have hnone : total n Pc.refs start.pc = 0 := total_eq_zero fun _ _ => rfl
  exact ⟨by rw [hnone]; rfl, nofun, rfl, nofun⟩

theorem inv_of_quietRun (hrun : Run (QuietStep n) start s) : Inv n s := by
  refine Run.invariant (fun x y hstep hx => ?_) hrun (inv_start n)
  obtain ⟨t, ht, a, hact, hq⟩ := hstep
  exact hx.step ht hact hq

/-- The mount is not hashed again. -/
theorem hashed_of_act (hact : s.act t a = some s') (hh : s.hashed = false) : s'.hashed = false := by
  unfold act at hact
  split at hact
  case h_7 =>
    obtain ⟨-, rfl⟩ := guard_eq_some hact
    exact hh
  case h_8 =>
    split at hact
    · cases hact
      rfl
    · cases hact
      exact hh
  case h_12 => cases hact
  all_goals
    cases hact
    exact hh

/-- Once the mount is unhashed, every step keeps the invariant. -/
theorem Inv.run_unhashed (h : Inv n s) (hh : s.hashed = false) (hrun : Run (Step n) s s') :
    Inv n s' := by
  have hstep : ∀ x y, Step n x y → Inv n x ∧ x.hashed = false → Inv n y ∧ y.hashed = false := by
    rintro x y ⟨t, ht, a, hact⟩ ⟨hx, hhx⟩
    refine ⟨hx.step ht hact fun hun => ?_, hashed_of_act hact hhx⟩
    exact absurd (hhx.symm.trans hun.2.1) nofun
  exact (Run.invariant hstep hrun ⟨h, hh⟩).1

theorem eq_of_unhashes (hun : s.Unhashes a) (hact : s.act t a = some s') :
    ∃ k, s.pc t = .locked k ∧ s' = { s.move t (.unhashed k) with hashed := false } := by
  obtain ⟨rfl, hcond⟩ := hun
  cases hpc : s.pc t with
  | locked k =>
    simp only [act, hpc, if_pos hcond, Option.some.injEq] at hact
    exact ⟨k, rfl, hact.symm⟩
  | _ => simp [act, hpc] at hact

theorem act_take (hpc : s.pc t = .found) : s.act t .take =
    some { s.move t (.holding 0) with count := s.count + 1, late := s.late || !s.hashed } := by
  simp only [act, hpc]

/-- In a run whose unhashing meets no walk at its lookup the unmount excludes new users; and from an
unhashing on it does so in every run exactly when it meets none. -/
theorem umount_excludes_iff (hrun : Run (QuietStep n) start s) :
    s.Excluded n ∧ ∀ t < n, ∀ a s', s.Unhashes a → s.act t a = some s' →
      ((∀ s'', Run (Step n) s' s'' → s''.Excluded n) ↔ s.Quiet n) := by
  have h := inv_of_quietRun hrun
  refine ⟨h.excluded, fun t ht a s' hun hact => ?_⟩
  obtain ⟨k, hpc, rfl⟩ := eq_of_unhashes hun hact
  refine ⟨fun hall u hu hfound => ?_, fun hquiet s'' hr => ?_⟩
  · -- the walk at its lookup takes its reference next
    have hne : u ≠ t := by
      rintro rfl
      exact absurd (hfound.symm.trans hpc) nofun
    have hstays : ({ s.move t (.unhashed k) with hashed := false } : MountSys).pc u = .found :=
      (update_of_ne hne _ _).trans hfound
    have hlate := (hall _ (.single ⟨u, hu, .take, act_take hstays⟩)).1
    simp at hlate
  · exact ((h.step ht hact fun _ => hquiet).run_unhashed rfl hr).excluded

/-- In such a run the count is that of the references, and `do_umount` unhashes the mount only when
no other task has one. -/
theorem umount_needs_last_reference (hrun : Run (QuietStep n) start s) :
    s.count = s.hashed.toNat + total n Pc.refs s.pc ∧ ∀ t < n, ∀ a s', s.Unhashes a →
      s.act t a = some s' → ∀ u < n, u ≠ t → (s.pc u).refs = 0 := by
  have h := inv_of_quietRun hrun
  refine ⟨h.count, fun t ht a s' hun hact u hu hne => ?_⟩
  obtain ⟨k, hpc, -⟩ := eq_of_unhashes hun hact
  have hcount := h.count
  rw [hun.2.1, hun.2.2, Bool.toNat_true] at hcount
  have hboth := add_le_total Pc.refs s.pc ht hu hne
  rw [hpc, Pc.refs] at hboth
  omega

end Steps

/-! ## An unmount with a walk and without -/

/-- The actions of the tasks one after the other. -/
def MountSys.acts (s : MountSys) (l : List (Nat × Act)) : Option MountSys :=
  l.foldlM (fun s x => s.act x.1 x.2) s

theorem run_of_acts {n : Nat} {l : List (Nat × Act)} {s s' : MountSys}
    (hl : ∀ x ∈ l, x.1 < n ∧ x.2 ≠ .check) (h : s.acts l = some s') : Run (QuietStep n) s s' := by
  induction l generalizing s with
  | nil =>
    cases h
    exact .refl
  | cons x l ih =>
    obtain ⟨s1, hact, hrest⟩ := Option.bind_eq_some_iff.1 h
    obtain ⟨⟨hx, hcheck⟩, hl⟩ := List.forall_mem_cons.1 hl
    exact .head ⟨x.1, hx, x.2, hact, fun hun => absurd hun.1 hcheck⟩ (ih hl hrest)

/-- Task 1 comes to `do_umount`. -/
def umounting : List (Nat × Act) := [(1, .isMounted), (1, .lookup), (1, .take), (1, .lock)]

/-- An unmount that nobody meets. -/
theorem umount_excludes_alone : ∃ s s', start.acts umounting = some s ∧
    s.act 1 .check = some s' ∧ s'.hashed = false ∧ ∀ s'', Run (Step 2) s' s'' → s''.Excluded 2 := by
  have hrun := run_of_acts (n := 2) (l := umounting) (s := start) (by decide) rfl
  refine ⟨_, _, rfl, rfl, rfl, ?_⟩
  refine ((umount_excludes_iff hrun).2 1 (by decide) .check _ ⟨rfl, rfl, rfl⟩ rfl).2 ?_
  unfold Quiet
  decide

/-- Task 0 has let the mount go when task 1 unmounts it. -/
theorem umount_needs_last_reference_pair : ∃ s s',
    start.acts ([(0, .isMounted), (0, .lookup), (0, .take), (0, .put)] ++ umounting) = some s ∧
      s.act 1 .check = some s' ∧ s'.hashed = false ∧ (s.pc 0).refs = 0 := by
  have hrun := run_of_acts (n := 2) (s := start)
    (l := [(0, .isMounted), (0, .lookup), (0, .take), (0, .put)] ++ umounting) (by decide) rfl
  refine ⟨_, _, rfl, rfl, rfl, ?_⟩
  exact (umount_needs_last_reference hrun).2 1 (by decide) .check _ ⟨rfl, rfl, rfl⟩ rfl 0
    (by decide) (by decide)

/-- Task 0 has found the mount when task 1 unmounts and frees it, and takes its reference then. -/
theorem umount_meets_walk : ∃ s, start.acts ([(0, .isMounted), (0, .lookup)] ++ umounting ++
    [(1, .check), (1, .clear), (1, .unlock), (1, .drop), (1, .put), (0, .take)]) = some s ∧
      s.ret 1 = some (.ok ()) ∧ s.late = true ∧ s.freed = true ∧ s.pc 0 = .holding 0 :=
  ⟨_, rfl, rfl, rfl, rfl, rfl⟩

end BrkKernel.Mount
