import Mathlib.Logic.Relation

/-!
# Fair traces

An infinite trace of a labelled step relation takes a step or stutters at every position. It is
weakly fair to a class of actions if an action of the class that is enabled from some position on
is taken later. On a system whose every step lowers a rank, a fair trace comes to rest in a state
in which no action of the class is enabled (`Trace.comes_to_rest`). Conversely a finite run that
ends in such a state is the beginning of a fair trace (`exists_fair_trace`).
-/

set_option autoImplicit false

namespace BrkKernel.Lib

variable {σ α : Type} {n : Nat} {F : α → Prop}

/-- One position of a trace: a labelled step, or nothing happens. -/
def Moves (step : σ → α → σ → Prop) (s : σ) (a : Option α) (s' : σ) : Prop :=
  match a with
  | none => s' = s
  | some a => step s a s'

/-- The action can be taken. -/
def Enabled (step : σ → α → σ → Prop) (a : α) (s : σ) : Prop := ∃ s', step s a s'

/-- An infinite sequence of states with the actions between them. -/
structure Trace (step : σ → α → σ → Prop) where
  state : Nat → σ
  act : Nat → Option α
  next : ∀ n, Moves step (state n) (act n) (state (n + 1))

variable {step : σ → α → σ → Prop} (tr : Trace step)

/-- Weak fairness to the actions in `F`. -/
def Trace.WeakFair (tr : Trace step) (F : α → Prop) : Prop :=
  ∀ a, F a → ∀ n, (∀ m, n ≤ m → Enabled step a (tr.state m)) → ∃ m, n ≤ m ∧ tr.act m = some a

/-- A predicate that the steps of the trace keep holds from a position on. -/
theorem Trace.invariant {P : σ → Prop} (h : P (tr.state n))
    (hstep : ∀ m a, n ≤ m → tr.act m = some a → step (tr.state m) a (tr.state (m + 1)) →
      P (tr.state m) → P (tr.state (m + 1))) : ∀ m, n ≤ m → P (tr.state m) := by
  intro m hm
  induction hm with
  | refl => exact h
  | @step m hm ih =>
    have hnext := tr.next m
    cases hact : tr.act m with
    | none =>
      rw [hact] at hnext
      rw [show tr.state (m + 1) = tr.state m from hnext]
      exact ih
    | some a =>
      rw [hact] at hnext
      exact hstep m a hm hact hnext ih

section

variable (rank : σ → Nat)
  (hrank : ∀ m a, n ≤ m → tr.act m = some a → step (tr.state m) a (tr.state (m + 1)) →
    rank (tr.state (m + 1)) < rank (tr.state m))

include hrank

/-- If every step lowers the rank, no step is taken from some position on. -/
theorem Trace.finitely_many_steps : ∃ k, n ≤ k ∧ ∀ m, k ≤ m → tr.act m = none := by
  -- by induction on the rank at the current position
  suffices hmain : ∀ r k, n ≤ k → rank (tr.state k) = r →
      ∃ k', k ≤ k' ∧ ∀ m, k' ≤ m → tr.act m = none from hmain _ n (Nat.le_refl n) rfl
  intro r
  induction r using Nat.strongRecOn with
  | ind r ih =>
    intro k hk hr
    by_cases hquiet : ∀ m, k ≤ m → tr.act m = none
    · exact ⟨k, Nat.le_refl k, hquiet⟩
    obtain ⟨m, hm⟩ := Classical.not_forall.1 hquiet
    obtain ⟨hkm, hne⟩ := Classical.not_imp.1 hm
    obtain ⟨a, hact⟩ := Option.ne_none_iff_exists'.1 hne
    have hmono : rank (tr.state m) ≤ r := by
      refine tr.invariant (P := fun s => rank s ≤ r) (Nat.le_of_eq hr) ?_ m hkm
      intro j b hj hb hs hle
      have := hrank j b (Nat.le_trans hk hj) hb hs
      omega
    have hnext := tr.next m
    rw [hact] at hnext
    have hlt := hrank m a (Nat.le_trans hk hkm) hact hnext
    obtain ⟨k', hk', h⟩ := ih _ (by omega) (m + 1) (by omega) rfl
    exact ⟨k', by omega, h⟩

/-- A fair trace on which every step lowers a rank comes to rest, and nothing that it is fair to is
enabled there. -/
theorem Trace.comes_to_rest (hfair : tr.WeakFair F) :
    ∃ k, n ≤ k ∧ ∀ a, F a → ¬ Enabled step a (tr.state k) := by
  obtain ⟨k, hk, hquiet⟩ := tr.finitely_many_steps rank hrank
  have hsame : ∀ m, k ≤ m → tr.state m = tr.state k := by
    refine tr.invariant (P := fun s => s = tr.state k) rfl ?_
    intro m a hm hact
    rw [hquiet m hm] at hact
    cases hact
  refine ⟨k, hk, fun a ha hen => ?_⟩
  obtain ⟨m, hm, hact⟩ := hfair a ha k fun m hm => by
    rw [hsame m hm]
    exact hen
  rw [hquiet m hm] at hact
  cases hact

end

/-- The trace that stays in one state. -/
def Trace.rest (step : σ → α → σ → Prop) (s : σ) : Trace step where
  state := fun _ => s
  act := fun _ => none
  next := fun _ => rfl

/-- A step before a trace. -/
def Trace.cons {s : σ} {a : α} (tr : Trace step) (h : step s a (tr.state 0)) : Trace step where
  state := fun n => Nat.casesOn n s tr.state
  act := fun n => Nat.casesOn n (some a) tr.act
  next := fun n => Nat.casesOn n h tr.next

section

variable {C : σ → α → Prop} {s s' : σ}

/-- A finite run before a fair trace. What holds of every step of the two holds of every step of the
whole. -/
theorem Trace.exists_after (hfair : tr.WeakFair F)
    (hall : ∀ n a, tr.act n = some a → C (tr.state n) a)
    (hrun : Relation.ReflTransGen (fun x y => ∃ a, step x a y ∧ C x a) s (tr.state 0)) :
    ∃ tr' : Trace step, tr'.state 0 = s ∧ tr'.WeakFair F ∧
      (∀ n a, tr'.act n = some a → C (tr'.state n) a) ∧
      ∃ k, ∀ m, tr'.state (m + k) = tr.state m := by
  induction hrun using Relation.ReflTransGen.head_induction_on with
  | refl => exact ⟨tr, rfl, hfair, hall, 0, fun _ => rfl⟩
  | head hstep _ ih =>
    obtain ⟨a, hstep, hC⟩ := hstep
    obtain ⟨tr', rfl, hfair', hall', k, hk⟩ := ih
    refine ⟨tr'.cons hstep, rfl, fun b hb n hen => ?_, fun n b hb => ?_, k + 1, hk⟩
    · obtain ⟨m, hm, hact⟩ := hfair' b hb n fun m hm => hen (m + 1) (by omega)
      exact ⟨m + 1, by omega, hact⟩
    · cases n with
      | zero =>
        cases hb
        exact hC
      | succ n => exact hall' n b hb

/-- A finite run to a state in which nothing is enabled that must be treated fairly is the
beginning of a fair trace. -/
theorem exists_fair_trace
    (hrun : Relation.ReflTransGen (fun x y => ∃ a, step x a y ∧ C x a) s s')
    (hstuck : ∀ a, F a → ¬ Enabled step a s') :
    ∃ tr : Trace step, tr.state 0 = s ∧ tr.WeakFair F ∧
      (∀ n a, tr.act n = some a → C (tr.state n) a) ∧ ∃ k, ∀ m, tr.state (m + k) = s' := by
  refine (Trace.rest step s').exists_after (fun a ha n hen => ?_) (fun n a h => ?_) hrun
  · exact absurd (hen n (Nat.le_refl n)) (hstuck a ha)
  · cases h

end

end BrkKernel.Lib
