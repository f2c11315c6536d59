import Mathlib.Algebra.BigOperators.Group.List.Basic
import Mathlib.Algebra.Group.Pi.Basic
import Mathlib.Algebra.GroupWithZero.Nat
import Mathlib.Logic.Function.Basic
import Mathlib.Logic.Relation

/-!
# Systems of actors

A run is a finite sequence of steps. A predicate that every step preserves holds in every state of
a run that starts in it (`Run.invariant`).

A system has `n` actors, each in a state of its own, and one of them moves at a time. `total` adds
up a quantity over the actors; when one moves, the total changes by what this actor gains or loses
(`total_update`).

A table says which actor holds a lock, and every actor knows which lock it is in. The two views are
`Consistent` when they tell the same story; taking a free lock and leaving a held one keep them so
(`Consistent.acquire`, `Consistent.release`).
-/

set_option autoImplicit false

namespace BrkKernel.Lib

open Function List

/-! ## Runs -/

/-- Finite runs of a step relation. -/
abbrev Run {σ : Type} (step : σ → σ → Prop) : σ → σ → Prop := Relation.ReflTransGen step

theorem Run.invariant {σ : Type} {step : σ → σ → Prop} {P : σ → Prop}
    (hstep : ∀ s s', step s s' → P s → P s') {s s' : σ} (hrun : Run step s s') (h : P s) :
    P s' := by
  induction hrun with
  | refl => exact h
  | tail _ hlast ih => exact hstep _ _ hlast ih

/-- What every turn of a counted loop keeps holds after the loop. -/
theorem foldl_range {σ : Type} {P : Nat → σ → Prop} {f : σ → Nat → σ} {s : σ} {n : Nat} (h : P 0 s)
    (hstep : ∀ m s, m < n → P m s → P (m + 1) (f s m)) : P n ((range n).foldl f s) := by
  induction n with
  | zero => exact h
  | succ n ih =>
    rw [range_succ, foldl_append, foldl_cons, foldl_nil]
    exact hstep n _ n.lt_succ_self (ih fun m s hm => hstep m s (Nat.lt_succ_of_lt hm))

/-- An action that is only enabled under a guard. -/
theorem guard_eq_some {σ : Type} {c : Prop} [Decidable c] {s s' : σ}
    (h : (if c then some s else none) = some s') : c ∧ s = s' := by
  split at h
  next hc => exact ⟨hc, Option.some.inj h⟩
  next => cases h

/-! ## Sums over the actors -/

/-- Changing a function in one place trades its old value for the new one in a sum over a list
that meets this place once. -/
theorem sum_map_update {α β : Type} [DecidableEq α] [AddCommMonoid β] (g : α → β) {i : α} (x : β)
    {l : List α} (hnd : l.Nodup) (hi : i ∈ l) :
    (l.map (update g i x)).sum + g i = (l.map g).sum + x := by
  induction l with
  | nil => simp at hi
  | cons a l ih =>
    obtain ⟨hal, hnd⟩ := nodup_cons.1 hnd
    simp only [map_cons, sum_cons]
    rcases mem_cons.1 hi with rfl | hmem
    · have hsame : l.map (update g i x) = l.map g :=
        map_congr_left fun b hb => update_of_ne (fun h : b = i => hal (h ▸ hb)) _ _
      rw [hsame, update_self, add_right_comm, add_comm x, add_right_comm]
    · have hne : a ≠ i := fun h => hal (h ▸ hmem)
      rw [update_of_ne hne, add_assoc, ih hnd hmem, add_assoc]

/-- The same for what is read off a function in every place. -/
theorem sum_map_apply_update {α β γ : Type} [DecidableEq α] [AddCommMonoid β] (g : α → γ → β)
    (f : α → γ) {i : α} (y : γ) {l : List α} (hnd : l.Nodup) (hi : i ∈ l) :
    (l.map fun j => g j (update f i y j)).sum + g i (f i) =
      (l.map fun j => g j (f j)).sum + g i y := by
  simp only [apply_update g f]
  exact sum_map_update (fun j => g j (f j)) (g i y) hnd hi

section

variable {α : Type} {n t u : Nat} {f : α → Nat} {a : Nat → α}

/-- The sum of a quantity over the actors below `n`. -/
def total (n : Nat) (f : α → Nat) (a : Nat → α) : Nat := ((range n).map fun t => f (a t)).sum

/-- One actor moves. -/
theorem total_update (f : α → Nat) (a : Nat → α) (x : α) (ht : t < n) :
    total n f (update a t x) + f (a t) = total n f a + f x :=
  sum_map_apply_update (fun _ => f) a x nodup_range (mem_range.2 ht)

theorem apply_le_total (f : α → Nat) (a : Nat → α) (ht : t < n) : f (a t) ≤ total n f a := by
  have hsum := sum_map_update (fun i => f (a i)) 0 nodup_range (mem_range.2 ht)
  unfold total
  omega

/-- Two actors hold no more than all of them. -/
theorem add_le_total (f : α → Nat) (a : Nat → α) (ht : t < n) (hu : u < n) (hne : u ≠ t) :
    f (a t) + f (a u) ≤ total n f a := by
  -- take out what `t` holds, and then what `u` holds
  have hsum := sum_map_update (fun i => f (a i)) 0 nodup_range (mem_range.2 ht)
  have hrest := sum_map_update (update (fun i => f (a i)) t 0) 0 nodup_range (mem_range.2 hu)
  rw [update_of_ne hne] at hrest
  unfold total
  omega

theorem total_eq_zero (h : ∀ t < n, f (a t) = 0) : total n f a = 0 := by
  apply sum_eq_zero
  intro x hx
  obtain ⟨t, ht, rfl⟩ := mem_map.1 hx
  exact h t (mem_range.1 ht)

end

/-! ## Locks -/

variable {L P : Type} {holder : L → Option P} {holds : P → Option L} {l : L} {p : P}

/-- The lock table and the parties agree on who is in which lock. -/
def Consistent (holder : L → Option P) (holds : P → Option L) : Prop :=
  ∀ l p, holder l = some p ↔ holds p = some l

section

variable (h : Consistent holder holds)

include h

theorem Consistent.symm : Consistent holds holder := fun p l => (h l p).symm

/-- Mutual exclusion. -/
theorem Consistent.exclusive {p q : P} (hp : holds p = some l) (hq : holds q = some l) :
    p = q := by
  have hholder : some p = some q := ((h l p).2 hp).symm.trans ((h l q).2 hq)
  exact Option.some.inj hholder

variable [DecidableEq P]

/-- A party stays in the lock it is in. -/
theorem Consistent.stay {x : Option L} (hx : x = holds p) :
    Consistent holder (update holds p x) := by
  rw [hx, update_eq_self]
  exact h

variable [DecidableEq L]

/-- What the table says after a change at one lock, when the party was in no other. -/
theorem Consistent.of_update {x : Option P} {y : Option L}
    (hself : ∀ q, x = some q → update holds p y q = some l)
    (hout : ∀ l', holds p = some l' → l' = l) (l' : L) (q : P)
    (hq : update holder l x l' = some q) : update holds p y q = some l' := by
  by_cases hl : l' = l
  · subst hl
    rw [update_self] at hq
    exact hself q hq
  · rw [update_of_ne hl, h l' q] at hq
    rw [update_of_ne, hq]
    rintro rfl
    exact hl (hout l' hq)

/-- A party in no lock takes a free one. -/
theorem Consistent.acquire (hfree : holder l = none) (hout : holds p = none) :
    Consistent (update holder l (some p)) (update holds p (some l)) := by
  refine fun l' q => ⟨h.of_update ?_ ?_ l' q, h.symm.of_update ?_ ?_ q l'⟩
  · rintro q ⟨⟩
    exact update_self ..
  · simp [hout]
  · rintro l ⟨⟩
    exact update_self ..
  · simp [hfree]

/-- A party leaves the lock it is in. -/
theorem Consistent.release (hin : holds p = some l) :
    Consistent (update holder l none) (update holds p none) := by
  refine fun l' q => ⟨h.of_update (by simp) ?_ l' q, h.symm.of_update (by simp) ?_ q l'⟩
  · simp [hin, eq_comm]
  · simp [(h l p).2 hin, eq_comm]

end

end BrkKernel.Lib
