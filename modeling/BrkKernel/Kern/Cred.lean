import BrkKernel.Kern.Base
import BrkKernel.Lib.Actors
import Mathlib.Data.BitVec

/-!
# Credentials of a task

The identities and capabilities of `struct task` and the calls of `kern/sysproc.c` that change the
user identities. A `kuid_t` is a 32-bit word, and so is the `int` that a call takes it from: the
conversions between them do nothing, only the comparisons are signed.

`drop_privileges_permanent` says which of the three ways to give up the identity `0` are for good.
`sys_setreuid` leaves the saved identity alone, and an unprivileged task may go back to it.
-/

set_option autoImplicit false

namespace BrkKernel.Kern

open Lib

/-- `CAP_LAST_CAP`. -/
def capLastCap : Nat := 31

/-- `CAP_FULL_SET`. -/
def capFullSet : BitVec 64 := 0xffffffff

/-- `CAP_DAC_OVERRIDE`. -/
def capDacOverride : Nat := 1

/-- `CAP_FOWNER`. -/
def capFowner : Nat := 3

/-- `CAP_SETUID`. -/
def capSetuid : Nat := 7

/-- `CAP_MKNOD`. -/
def capMknod : Nat := 27

/-- The fields of `struct task` that say on whose behalf it runs. -/
structure Cred where
  uid : BitVec 32
  euid : BitVec 32
  suid : BitVec 32
  fsuid : BitVec 32
  fsgid : BitVec 32
  groups : List (BitVec 32)
  umask : BitVec 32
  capEffective : BitVec 64
  capPermitted : BitVec 64
deriving DecidableEq

/-- `capable`. -/
def Cred.capable (t : Cred) (cap : Nat) : Bool :=
  decide (cap ≤ capLastCap) && t.capEffective.getLsbD cap

/-- `update_caps_after_setuid`. -/
def Cred.updateCapsAfterSetuid (t : Cred) (oldEuid : BitVec 32) : Cred :=
  if oldEuid ≠ 0 ∧ t.euid = 0 then { t with capEffective := capFullSet, capPermitted := capFullSet }
  else if oldEuid = 0 ∧ t.euid ≠ 0 then { t with capEffective := 0, capPermitted := 0 }
  else t

/-- `sys_setuid`. -/
def Cred.setuid (t : Cred) (uid : BitVec 32) : Except Errno Cred :=
  if uid.slt 0 then .error .einval
  else if t.capable capSetuid then
    .ok (Cred.updateCapsAfterSetuid { t with uid := uid, euid := uid, suid := uid, fsuid := uid }
      t.euid)
  else if uid = t.uid ∨ uid = t.suid then
    .ok (Cred.updateCapsAfterSetuid { t with euid := uid, fsuid := uid } t.euid)
  else .error .eperm

/-- The check of `sys_setreuid` for a task without `CAP_SETUID`. -/
def Cred.reuidValid (t : Cred) (ruid euid : BitVec 32) : Bool :=
  t.capable capSetuid ||
    !((ruid != -1 && ruid != t.uid) || (euid != -1 && euid != t.uid && euid != t.suid))

/-- `sys_setreuid`. -/
def Cred.setreuid (t : Cred) (ruid euid : BitVec 32) : Except Errno Cred :=
  if ruid.slt (-1) ∨ euid.slt (-1) then .error .einval
  else if !t.reuidValid ruid euid then .error .eperm
  else
    .ok (Cred.updateCapsAfterSetuid
      { t with
        uid := if ruid = -1 then t.uid else ruid
        euid := if euid = -1 then t.euid else euid
        fsuid := if euid = -1 then t.fsuid else euid } t.euid)

/-- An identity that an unprivileged task may take: one that it has, or none. -/
def Cred.has (t : Cred) (id : BitVec 32) : Bool :=
  id == -1 || id == t.uid || id == t.euid || id == t.suid

/-- `resuid_valid`. -/
def Cred.resuidValid (t : Cred) (ruid euid suid : BitVec 32) : Bool :=
  t.capable capSetuid || (t.has ruid && t.has euid && t.has suid)

/-- `sys_setresuid`. -/
def Cred.setresuid (t : Cred) (ruid euid suid : BitVec 32) : Except Errno Cred :=
  if ruid.slt (-1) ∨ euid.slt (-1) ∨ suid.slt (-1) then .error .einval
  else if !t.resuidValid ruid euid suid then .error .eperm
  else
    .ok (Cred.updateCapsAfterSetuid
      { t with
        uid := if ruid = -1 then t.uid else ruid
        euid := if euid = -1 then t.euid else euid
        suid := if suid = -1 then t.suid else suid
        fsuid := if euid = -1 then t.euid else euid } t.euid)

/-- The calls that change the user identities. -/
inductive SetCall where
  | setuid (uid : BitVec 32)
  | setreuid (ruid euid : BitVec 32)
  | setresuid (ruid euid suid : BitVec 32)
deriving DecidableEq

def SetCall.exec (t : Cred) : SetCall → Except Errno Cred
  | .setuid uid => t.setuid uid
  | .setreuid ruid euid => t.setreuid ruid euid
  | .setresuid ruid euid suid => t.setresuid ruid euid suid

/-- A task makes one of the calls. A call that fails changes nothing. -/
inductive SetStep (t : Cred) : Cred → Prop
  | done {c : SetCall} {t' : Cred} (h : c.exec t = .ok t') : SetStep t t'
  | failed {c : SetCall} {e : Errno} (h : c.exec t = .error e) : SetStep t t

/-! ## Unprivileged tasks -/

/-- The task is neither the superuser nor has it any capability. -/
structure Cred.Unprivileged (t : Cred) : Prop where
  uid : t.uid ≠ 0
  euid : t.euid ≠ 0
  fsuid : t.fsuid ≠ 0
  caps : t.capEffective = 0

/-- It stays so whatever it calls. -/
def Cred.Dropped (t : Cred) : Prop := ∀ t', Run SetStep t t' → t'.Unprivileged

/-- Unprivileged, and with no way back. -/
structure Cred.Harmless (t : Cred) : Prop extends Cred.Unprivileged t where
  suid : t.suid ≠ 0

section Steps

variable {t t' : Cred} {ruid euid : BitVec 32}

theorem Cred.Unprivileged.not_capable (h : t.Unprivileged) (cap : Nat) : t.capable cap = false := by
  unfold Cred.capable
  rw [h.caps, BitVec.ofNat_eq_ofNat, BitVec.getLsbD_zero, Bool.and_false]

theorem updateCaps_of_ne {old : BitVec 32} (hold : old ≠ 0) (hnew : t.euid ≠ 0) :
    t.updateCapsAfterSetuid old = t := by
  unfold Cred.updateCapsAfterSetuid
  rw [if_neg fun h => hnew h.2, if_neg fun h => hold h.1]

/-- Leaving the identity `0` takes all capabilities away. -/
theorem updateCaps_of_zero (hnew : t.euid ≠ 0) :
    t.updateCapsAfterSetuid 0 = { t with capEffective := 0, capPermitted := 0 } := by
  unfold Cred.updateCapsAfterSetuid
  rw [if_neg fun h => h.1 rfl, if_pos ⟨rfl, hnew⟩]

theorem updateCaps_euid (old : BitVec 32) : (t.updateCapsAfterSetuid old).euid = t.euid := by
  unfold Cred.updateCapsAfterSetuid
  split
  · rfl
  · split
    · rfl
    · rfl

theorem setuid_ok {uid : BitVec 32} (h : t.setuid uid = .ok t') : uid.slt 0 = false ∧
    ((t.capable capSetuid = true ∧ t' = Cred.updateCapsAfterSetuid
          { t with uid := uid, euid := uid, suid := uid, fsuid := uid } t.euid) ∨
      (t.capable capSetuid = false ∧ (uid = t.uid ∨ uid = t.suid) ∧
        t' = Cred.updateCapsAfterSetuid { t with euid := uid, fsuid := uid } t.euid)) := by
  unfold Cred.setuid at h
  split at h
  · cases h
  next hneg =>
  refine ⟨eq_false_of_ne_true hneg, ?_⟩
  split at h
  next hc =>
    cases h
    exact .inl ⟨hc, rfl⟩
  split at h
  next hc hid =>
    cases h
    exact .inr ⟨eq_false_of_ne_true hc, hid, rfl⟩
  · cases h

/-- `setreuid` and `setresuid` check their arguments and then the rights of the task. -/
theorem checked_ok {c : Prop} [Decidable c] {valid : Bool} {e e' : Errno} {new : Cred}
    (h : (if c then .error e else if !valid then .error e' else .ok new) = Except.ok t') :
    valid = true ∧ t' = new := by
  rw [ite_error_eq_ok, ite_error_eq_ok] at h
  exact ⟨by simpa using h.2.1, (Except.ok.inj h.2.2).symm⟩

/-- What a call makes of an identity when it is given `id`. -/
theorem chosen_ne_zero {old id : BitVec 32} (hold : old ≠ 0) (hid : id ≠ -1 → id ≠ 0) :
    (if id = -1 then old else id) ≠ 0 := by
  split
  next => exact hold
  next h => exact hid h

section

variable (h : t.Harmless)

include h

theorem Cred.Harmless.has_ne_zero {id : BitVec 32} (hid : t.has id = true)
    (hne : id ≠ -1) : id ≠ 0 := by
  unfold Cred.has at hid
  rw [Bool.or_eq_true, Bool.or_eq_true, Bool.or_eq_true, beq_iff_eq, beq_iff_eq, beq_iff_eq,
    beq_iff_eq] at hid
  rcases hid with ((h' | rfl) | rfl) | rfl
  · exact absurd h' hne
  · exact h.uid
  · exact h.euid
  · exact h.suid

theorem Cred.Harmless.reuid_ne_zero
    (hv : t.reuidValid ruid euid = true) : (ruid ≠ -1 → ruid ≠ 0) ∧ (euid ≠ -1 → euid ≠ 0) := by
  unfold Cred.reuidValid at hv
  rw [h.not_capable, Bool.false_or] at hv
  simp only [Bool.not_eq_true', Bool.or_eq_false_iff, Bool.and_eq_false_iff, bne_eq_false_iff_eq]
    at hv
  refine ⟨fun hr => ?_, fun he => ?_⟩
  · rcases hv.1 with h' | rfl
    · exact absurd h' hr
    · exact h.uid
  rcases hv.2 with (h' | rfl) | rfl
  · exact absurd h' he
  · exact h.uid
  · exact h.suid

/-- A task without privileges and without a saved identity `0` gets none. -/
theorem Cred.Harmless.exec {c : SetCall} (hc : c.exec t = .ok t') : t'.Harmless := by
  cases c with
  | setuid uid =>
    obtain ⟨-, ⟨hcap, -⟩ | ⟨-, hid, rfl⟩⟩ := setuid_ok hc
    · exact absurd (hcap.symm.trans (h.not_capable _)) nofun
    have hne : uid ≠ 0 := by
      rcases hid with rfl | rfl
      · exact h.uid
      · exact h.suid
    rw [updateCaps_of_ne h.euid hne]
    exact ⟨⟨h.uid, hne, hne, h.caps⟩, h.suid⟩
  | setreuid ruid euid =>
    obtain ⟨hv, rfl⟩ := checked_ok hc
    obtain ⟨hr, he⟩ := h.reuid_ne_zero hv
    rw [updateCaps_of_ne h.euid (chosen_ne_zero h.euid he)]
    exact ⟨⟨chosen_ne_zero h.uid hr, chosen_ne_zero h.euid he, chosen_ne_zero h.fsuid he, h.caps⟩,
      h.suid⟩
  | setresuid ruid euid suid =>
    obtain ⟨hv, rfl⟩ := checked_ok hc
    unfold Cred.resuidValid at hv
    rw [h.not_capable, Bool.false_or, Bool.and_eq_true, Bool.and_eq_true] at hv
    have he := chosen_ne_zero h.euid (h.has_ne_zero hv.1.2)
    rw [updateCaps_of_ne h.euid he]
    exact ⟨⟨chosen_ne_zero h.uid (h.has_ne_zero hv.1.1), he, he, h.caps⟩,
      chosen_ne_zero h.suid (h.has_ne_zero hv.2)⟩

theorem Cred.Harmless.dropped : t.Dropped := by
  intro t' hrun
  have hinv : t'.Harmless := Run.invariant (fun s s' hs hi => by
    cases hs with
    | done hc => exact hi.exec hc
    | failed hc => exact hi) hrun h
  exact hinv.toUnprivileged

end

theorem not_dropped_of_euid (he : t.euid = 0) : ¬ t.Dropped :=
  fun h => (h t Relation.ReflTransGen.refl).euid he

/-- A saved identity `0` is a way back. -/
theorem not_dropped_of_suid (hs : t.suid = 0) : ¬ t.Dropped := by
  intro h
  have hnow := h t Relation.ReflTransGen.refl
  have hback : t.setuid 0 =
      .ok (Cred.updateCapsAfterSetuid { t with euid := 0, fsuid := 0 } t.euid) := by
    unfold Cred.setuid
    rw [if_neg (by decide), hnow.not_capable, if_neg Bool.false_ne_true, if_pos (.inr hs.symm)]
  have hroot := (h _ (.single (.done (c := .setuid 0) hback))).euid
  exact hroot (updateCaps_euid t.euid)

end Steps

/-! ## Giving up the identity `0` -/

/-- The three calls that give all of the identities the value `u`. -/
inductive SetCall.Drops (u : BitVec 32) : SetCall → Prop
  | setuid : Drops u (.setuid u)
  | setreuid : Drops u (.setreuid u u)
  | setresuid : Drops u (.setresuid u u u)

/-- The call drops the privileges of `t`: `-1` stands for no change, and `setreuid` leaves the saved
identity. -/
def SetCall.Final (t : Cred) (u : BitVec 32) (c : SetCall) : Prop :=
  u ≠ -1 ∧ (c = .setreuid u u → t.suid ≠ 0)

/-- A privileged task that gives up the identity `0` stays unprivileged whatever it calls, exactly
when the call changes the identities and leaves no saved identity `0`. -/
theorem drop_privileges_permanent {t t' : Cred} {u : BitVec 32} {c : SetCall}
    (hcap : t.capable capSetuid = true) (heuid : t.euid = 0) (hu : u ≠ 0) (hc : c.Drops u)
    (hok : c.exec t = .ok t') : t'.Dropped ↔ c.Final t u := by
  cases hc with
  | setuid =>
    obtain ⟨hneg, ⟨-, rfl⟩ | ⟨hno, -⟩⟩ := setuid_ok hok
    · have hne : u ≠ -1 := by
        rintro rfl
        exact absurd hneg (by decide)
      rw [heuid, updateCaps_of_zero hu]
      exact ⟨fun _ => ⟨hne, nofun⟩, fun _ => Cred.Harmless.dropped ⟨⟨hu, hu, hu, rfl⟩, hu⟩⟩
    · exact absurd (hcap.symm.trans hno) nofun
  | setreuid =>
    obtain ⟨-, rfl⟩ := checked_ok hok
    by_cases hne : u = -1
    · -- nothing has changed, and the task is the superuser
      refine ⟨fun h => absurd h (not_dropped_of_euid ?_), fun h => absurd hne h.1⟩
      rw [updateCaps_euid]
      exact (if_pos hne).trans heuid
    rw [if_neg hne, if_neg hne, if_neg hne, heuid, updateCaps_of_zero hu]
    constructor
    · intro h
      refine ⟨hne, fun _ hs => absurd h (not_dropped_of_suid ?_)⟩
      exact hs
    · intro h
      exact Cred.Harmless.dropped ⟨⟨hu, hu, hu, rfl⟩, h.2 rfl⟩
  | setresuid =>
    obtain ⟨-, rfl⟩ := checked_ok hok
    by_cases hne : u = -1
    · refine ⟨fun h => absurd h (not_dropped_of_euid ?_), fun h => absurd hne h.1⟩
      rw [updateCaps_euid]
      exact (if_pos hne).trans heuid
    · rw [if_neg hne, if_neg hne, if_neg hne, heuid, updateCaps_of_zero hu]
      exact ⟨fun _ => ⟨hne, nofun⟩, fun _ => Cred.Harmless.dropped ⟨⟨hu, hu, hu, rfl⟩, hu⟩⟩

/-- The superuser, as `task_init` makes it. -/
def rootCred : Cred := ⟨0, 0, 0, 0, 0, [], 0o22, capFullSet, capFullSet⟩

/-- The superuser after `setreuid(1000, 1000)`. -/
def reuidCred : Cred := { rootCred with uid := 1000, euid := 1000, fsuid := 1000, capEffective := 0
                                        capPermitted := 0 }

theorem drop_privileges_permanent_root : SetCall.exec rootCred (.setuid 1000) =
        .ok { reuidCred with suid := 1000 } ∧ Cred.Dropped { reuidCred with suid := 1000 } :=
  ⟨by decide, (drop_privileges_permanent (t := rootCred) (u := 1000) (by decide) rfl (by decide)
    .setuid (by decide)).2 ⟨by decide, nofun⟩⟩

/-- After `setreuid(1000, 1000)` a call `setuid(0)` brings everything back. -/
theorem setreuid_not_permanent : SetCall.exec rootCred (.setreuid 1000 1000) = .ok reuidCred ∧
      SetCall.exec reuidCred (.setuid 0) =
        .ok { reuidCred with euid := 0, fsuid := 0, capEffective := capFullSet
                             capPermitted := capFullSet } ∧
      ¬ reuidCred.Dropped :=
  ⟨by decide, by decide, not_dropped_of_suid rfl⟩

end BrkKernel.Kern
