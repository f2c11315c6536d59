import Mathlib.Data.Set.Card
import Mathlib.Logic.Function.Basic

/-!
# Counting the places that hold a thing

A map sends places to the things that they hold. `refs f v` is the set of the places that hold `v`,
and the lemmas say how its cardinality moves when one place is filled or emptied. Where a place is a
pair, `below f P d` are the second parts of the places of `d` that hold a thing with `P`.
-/

set_option autoImplicit false

namespace BrkKernel.Lib

open Function

/-! ## The places of one thing -/

section Refs

variable {κ ν : Type} [DecidableEq κ] {f : κ → Option ν} {k : κ} {v w : ν}

/-- The places that hold `v`. -/
def refs (f : κ → Option ν) (v : ν) : Set κ := {k | f k = some v}

omit [DecidableEq κ] in
@[simp] theorem mem_refs : k ∈ refs f v ↔ f k = some v := Iff.rfl

theorem refs_fill : refs (update f k (some v)) v = insert k (refs f v) := by
  ext j
  by_cases hj : j = k
  · subst hj
    simp
  · simp [hj]

theorem refs_fill_of_ne (h : f k = none) (hw : w ≠ v) :
    refs (update f k (some v)) w = refs f w := by
  ext j
  by_cases hj : j = k
  · subst hj
    simp [h, Ne.symm hw]
  · simp [hj]

theorem refs_empty : refs (update f k none) v = refs f v \ {k} := by
  ext j
  by_cases hj : j = k
  · subst hj
    simp
  · simp [hj]

theorem refs_empty_of_ne (h : f k = some v) (hw : w ≠ v) : refs (update f k none) w = refs f w := by
  rw [refs_empty]
  apply Set.sdiff_singleton_eq_self
  intro hk
  rw [mem_refs, h] at hk
  exact hw (Option.some.inj hk).symm

end Refs

/-! ## What is below a first part -/

section Below

variable {δ η ν : Type} [DecidableEq δ] [DecidableEq η] {f : δ × η → Option ν} {P P' : ν → Prop}
  {d d' : δ} {x : η} {v : ν} {k : δ × η}

/-- The second parts of the places of `d` that hold a thing with `P`. -/
def below (f : δ × η → Option ν) (P : ν → Prop) (d : δ) : Set η :=
  {x | ∃ v, f (d, x) = some v ∧ P v}

omit [DecidableEq δ] [DecidableEq η] in
theorem below_congr (h : ∀ x v, f (d, x) = some v → (P v ↔ P' v)) : below f P d = below f P' d := by
  ext x
  constructor
  · rintro ⟨v, hv, hp⟩
    exact ⟨v, hv, (h x v hv).mp hp⟩
  · rintro ⟨v, hv, hp⟩
    exact ⟨v, hv, (h x v hv).mpr hp⟩

theorem below_update_of_ne (o : Option ν) (h : d' ≠ d) :
    below (update f (d, x) o) P d' = below f P d' := by
  ext y
  have hne : (d', y) ≠ (d, x) := fun he => h (congrArg Prod.fst he)
  simp [below, hne]

theorem below_fill (hp : P v) : below (update f (d, x) (some v)) P d = insert x (below f P d) := by
  ext y
  by_cases hy : y = x
  · subst hy
    simp [below, hp]
  · have hne : (d, y) ≠ (d, x) := fun he => hy (congrArg Prod.snd he)
    simp [below, hne, hy]

theorem below_fill_of_not (h : f k = none) (hp : ¬ P v) :
    below (update f k (some v)) P d = below f P d := by
  ext y
  by_cases hy : (d, y) = k
  · subst hy
    simp [below, hp, h]
  · simp [below, hy]

theorem below_empty : below (update f (d, x) none) P d = below f P d \ {x} := by
  ext y
  by_cases hy : y = x
  · subst hy
    simp [below]
  · have hne : (d, y) ≠ (d, x) := fun he => hy (congrArg Prod.snd he)
    simp [below, hne, hy]

theorem below_empty_of_not (h : f k = some v) (hp : ¬ P v) :
    below (update f k none) P d = below f P d := by
  ext y
  by_cases hy : (d, y) = k
  · subst hy
    simp [below, hp, h]
  · simp [below, hy]

end Below

end BrkKernel.Lib
