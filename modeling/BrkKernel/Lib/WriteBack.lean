import Mathlib.Logic.Function.Basic

/-!
# Write-back caches

A cache in front of a backing store holds some lines, each possibly dirty. Its view is the cached
value where there is a line and the backing value elsewhere. In a coherent cache every clean line
agrees with the backing store; filling, dropping and writing back lines then keep the view, and
storing to a line changes the view at its index only.
-/

set_option autoImplicit false

namespace BrkKernel.Lib

open Function

/-- A cached value and whether the backing store is out of date. -/
structure Line (α : Type) where
  value : α
  dirty : Bool

namespace WriteBack

section

variable {ι α : Type}

/-- The contents a reader of the cache sees. -/
def view (c : ι → Option (Line α)) (back : ι → α) (i : ι) : α :=
  match c i with
  | some l => l.value
  | none => back i

/-- Clean lines agree with the backing store. -/
def Coherent (c : ι → Option (Line α)) (back : ι → α) : Prop :=
  ∀ i l, c i = some l → l.dirty = false → l.value = back i

theorem view_of_some {c : ι → Option (Line α)} {i : ι} {l : Line α} (back : ι → α)
    (h : c i = some l) : view c back i = l.value := by rw [view, h]

theorem view_of_none {c : ι → Option (Line α)} {i : ι} (back : ι → α) (h : c i = none) :
    view c back i = back i := by rw [view, h]

/-- Without dirty lines the backing store is up to date. -/
theorem Coherent.view_eq {c : ι → Option (Line α)} {back : ι → α} (h : Coherent c back)
    (hclean : ∀ i l, c i = some l → l.dirty = false) : view c back = back := by
  funext i
  cases hi : c i with
  | none => exact view_of_none back hi
  | some l => rw [view_of_some back hi, h i l hi (hclean i l hi)]

/-- A cache whose lines are lines of a coherent cache. -/
theorem Coherent.mono {c c' : ι → Option (Line α)} {back : ι → α} (h : Coherent c back)
    (hsub : ∀ i l, c' i = some l → c i = some l) : Coherent c' back := by
  intro i l hl
  exact h i l (hsub i l hl)

variable [DecidableEq ι] {c : ι → Option (Line α)} {back back' : ι → α} {i : ι} {l : Line α}

theorem view_update_some (c : ι → Option (Line α)) (back : ι → α) (i : ι) (l : Line α) :
    view (update c i (some l)) back = update (view c back) i l.value := by
  refine eq_update_iff.2 ⟨view_of_some back (update_self ..), fun j hj => ?_⟩
  rw [view, view, update_of_ne hj]

/-- Replacing a line by one that is dirty or agrees with the backing store. -/
theorem Coherent.set (h : Coherent c back) (hl : l.dirty = false → l.value = back i) :
    Coherent (update c i (some l)) back := by
  intro j l' hj hd
  by_cases hji : j = i
  · subst hji
    rw [update_self] at hj
    cases hj
    exact hl hd
  · rw [update_of_ne hji] at hj
    exact h j l' hj hd

/-- A line may be replaced by one with the same value. -/
theorem view_update_same (h : view c back i = l.value) :
    view (update c i (some l)) back = view c back := by
  rw [view_update_some, ← h, update_eq_self]

/-- Writing the backing store at the index of a line, whether or not the value arrives there. -/
theorem Coherent.sync (h : Coherent c back) {d : Bool} (hi : c i = some l)
    (hback : ∀ j, j ≠ i → back' j = back j) (hd : d = false → l.value = back' i) :
    Coherent (update c i (some ⟨l.value, d⟩)) back' ∧
      view (update c i (some ⟨l.value, d⟩)) back' = view c back := by
  constructor
  · intro j l' hj hclean
    by_cases hji : j = i
    · subst hji
      rw [update_self] at hj
      cases hj
      exact hd hclean
    · rw [update_of_ne hji] at hj
      rw [hback j hji]
      exact h j l' hj hclean
  · funext j
    by_cases hji : j = i
    · subst hji
      rw [view_of_some back hi, view, update_self]
    · rw [view, view, update_of_ne hji, hback j hji]

/-- Dropping a clean line. -/
theorem Coherent.drop (h : Coherent c back) (hclean : ∀ l, c i = some l → l.dirty = false) :
    Coherent (update c i none) back ∧ view (update c i none) back = view c back := by
  constructor
  · refine h.mono fun j l hj => ?_
    by_cases hji : j = i
    · subst hji
      rw [update_self] at hj
      cases hj
    · rwa [update_of_ne hji] at hj
  · funext j
    by_cases hji : j = i
    · subst hji
      rw [view_of_none back (update_self ..)]
      cases hc : c j with
      | none => exact (view_of_none back hc).symm
      | some l => rw [view_of_some back hc, h j l hc (hclean l hc)]
    · rw [view, view, update_of_ne hji]

end

end WriteBack

end BrkKernel.Lib
