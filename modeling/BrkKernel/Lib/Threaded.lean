import Mathlib.Data.List.Nodup
import Mathlib.Logic.Function.Basic

/-!
# Lists threaded through a table

A record of a table may hold the number of the next one, and zero ends the list. `Threaded next p l`
says that the list from number `p` on is `l`. A number goes in front (`Threaded.push`), and one is
taken out by giving its predecessor its successor (`Threaded.skip`).
-/

set_option autoImplicit false

namespace BrkKernel.Lib

open Function

/-- The list that starts with number `p`. -/
def Threaded (next : Nat → Option Nat) : Nat → List Nat → Prop
  | p, [] => p = 0
  | p, a :: l => p = a ∧ a ≠ 0 ∧ ∃ q, next a = some q ∧ Threaded next q l

namespace Threaded

variable {next next' : Nat → Option Nat} {p q a b : Nat} {l l₁ l₂ : List Nat}

section

variable (h : Threaded next p l)

include h

theorem congr (hn : ∀ a ∈ l, next' a = next a) : Threaded next' p l := by
  induction l generalizing p with
  | nil => exact h
  | cons a l ih =>
    obtain ⟨hp, ha, q, hq, hl⟩ := h
    refine ⟨hp, ha, q, ?_, ih hl fun b hb => hn b (List.mem_cons_of_mem a hb)⟩
    rw [hn a List.mem_cons_self, hq]

/-- A number goes in front. -/
theorem push (ha : a ≠ 0) (hn : next a = some p) : Threaded next a (a :: l) :=
  ⟨rfl, ha, p, hn, h⟩

theorem ne_zero (ha : a ∈ l) : a ≠ 0 := by
  induction l generalizing p with
  | nil => cases ha
  | cons b l ih =>
    obtain ⟨-, hb, q, -, hl⟩ := h
    cases ha with
    | head => exact hb
    | tail _ ha => exact ih hl ha

end

/-- The list from a number in the middle on. -/
theorem drop (h : Threaded next p (l₁ ++ a :: l)) : ∃ q, next a = some q ∧ Threaded next q l := by
  induction l₁ generalizing p with
  | nil =>
    obtain ⟨-, -, q, hq, hl⟩ := h
    exact ⟨q, hq, hl⟩
  | cons b l₁ ih =>
    obtain ⟨-, -, q, -, hl⟩ := h
    exact ih hl

/-- A number is taken out: its predecessor `a` now has the successor of `b`. -/
theorem skip (h : Threaded next p (l₁ ++ a :: b :: l₂)) (hnd : (l₁ ++ a :: b :: l₂).Nodup)
    (hb : next b = some q) : Threaded (update next a (some q)) p (l₁ ++ a :: l₂) := by
  induction l₁ generalizing p with
  | nil =>
    obtain ⟨hp, ha, r, -, -, -, q', hq', hl⟩ := h
    obtain rfl : q = q' := Option.some.inj (hb.symm.trans hq')
    have hnot : a ∉ b :: l₂ := (List.nodup_cons.mp hnd).1
    refine ⟨hp, ha, q, update_self _ _ _, hl.congr fun c hc => ?_⟩
    apply update_of_ne
    rintro rfl
    exact hnot (List.mem_cons_of_mem b hc)
  | cons c l₁ ih =>
    obtain ⟨hp, hc, r, hr, hl⟩ := h
    have hnd' := List.nodup_cons.mp hnd
    refine ⟨hp, hc, r, ?_, ih hl hnd'.2⟩
    rw [update_of_ne]
    · exact hr
    · rintro rfl
      exact hnd'.1 (List.mem_append_right l₁ List.mem_cons_self)

end Threaded

end BrkKernel.Lib
