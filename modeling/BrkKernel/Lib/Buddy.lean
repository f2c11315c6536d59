import Mathlib.Algebra.Ring.Parity
import Mathlib.Data.Nat.Bitwise
import BrkKernel.Lib.Actors

/-!
# Power-of-two blocks

A block of order `o` is `2 ^ o` consecutive units. `span p o` is its indicator, as a function to the
natural numbers, so that the indicators of several blocks add up: a sum that is nowhere above one
says that the blocks are disjoint, and what the sum is says which units they cover. Splitting a
block in halves and joining two buddies keep the sum (`span_succ`, `span_min_buddy`).
-/

set_option autoImplicit false

namespace BrkKernel.Lib

/-- How often the block of order `o` at `p` covers the unit `x`. -/
def span (p o : Nat) : Nat → Nat := fun x => if p ≤ x ∧ x < p + 2 ^ o then 1 else 0

/-- What the blocks of order `o` at the places of a list cover. -/
def spans (o : Nat) (l : List Nat) : Nat → Nat := (l.map fun p => span p o).sum

/-- The other half of the block of order `o + 1` that the block of order `o` at `p` belongs to. -/
def buddy (p o : Nat) : Nat := p ^^^ 2 ^ o

section Span

variable {p q o x : Nat} {l : List Nat}

theorem span_of_mem (h1 : p ≤ x) (h2 : x < p + 2 ^ o) : span p o x = 1 := if_pos ⟨h1, h2⟩

theorem span_of_not_mem (h : ¬ (p ≤ x ∧ x < p + 2 ^ o)) : span p o x = 0 := if_neg h

@[simp]
theorem span_self : span p o p = 1 :=
  span_of_mem le_rfl (Nat.lt_add_of_pos_right (Nat.two_pow_pos o))

/-- A block is its lower and its upper half. -/
theorem span_succ (p o : Nat) : span p (o + 1) = span p o + span (p + 2 ^ o) o := by
  funext x
  rw [Pi.add_apply]
  by_cases hlow : p ≤ x ∧ x < p + 2 ^ o
  · rw [span_of_mem hlow.1 (by rw [pow_succ]; omega), span_of_mem hlow.1 hlow.2,
      span_of_not_mem (by omega)]
  rw [span_of_not_mem hlow, zero_add]
  by_cases hup : p + 2 ^ o ≤ x ∧ x < p + 2 ^ o + 2 ^ o
  · rw [span_of_mem (by omega) (by rw [pow_succ]; omega), span_of_mem hup.1 hup.2]
  · rw [span_of_not_mem (by rw [pow_succ]; omega), span_of_not_mem hup]

@[simp]
theorem spans_nil (o : Nat) : spans o [] = 0 := rfl

@[simp]
theorem spans_cons (o p : Nat) (l : List Nat) : spans o (p :: l) = span p o + spans o l := by
  simp [spans]

theorem spans_erase (h : p ∈ l) : spans o l = span p o + spans o (l.erase p) := by
  exact ((List.perm_cons_erase h).map fun p => span p o).sum_eq

theorem spans_pos (h : p ∈ l) (hx : p ≤ x) (hlt : x < p + 2 ^ o) : 0 < spans o l x := by
  rw [spans_erase h, Pi.add_apply, span_of_mem hx hlt]
  omega

end Span

section Buddies

theorem xor_one (q : Nat) : q ^^^ 1 = if q % 2 = 0 then q + 1 else q - 1 := by
  split
  next h => exact Nat.xor_one_of_even (Nat.even_iff.2 h)
  next h => exact Nat.xor_one_of_odd (Nat.not_even_iff_odd.1 fun he => h (Nat.even_iff.1 he))

theorem buddy_mul (q o : Nat) : buddy (2 ^ o * q) o = 2 ^ o * (q ^^^ 1) := by
  have hshift := @Nat.shiftLeft_xor_distrib o q 1
  rw [Nat.shiftLeft_eq, Nat.shiftLeft_eq, Nat.shiftLeft_eq, one_mul] at hshift
  rw [buddy, mul_comm, ← hshift, mul_comm]

/-- An aligned block is the lower or the upper half of an aligned block, and its buddy is the
other half. -/
theorem buddy_cases {p o : Nat} (h : p % 2 ^ o = 0) :
    (buddy p o = p + 2 ^ o ∧ p % 2 ^ (o + 1) = 0) ∨
      (p = buddy p o + 2 ^ o ∧ buddy p o % 2 ^ (o + 1) = 0) := by
  obtain ⟨q, rfl⟩ := Nat.dvd_of_mod_eq_zero h
  rw [buddy_mul, xor_one, pow_succ]
  by_cases hq : q % 2 = 0
  · left
    rw [if_pos hq, Nat.mul_succ]
    exact ⟨rfl, by rw [Nat.mul_mod_mul_left, hq, mul_zero]⟩
  right
  rw [if_neg hq]
  refine ⟨?_, ?_⟩
  · rw [← Nat.mul_succ]
    congr 1
    omega
  · rw [Nat.mul_mod_mul_left, show (q - 1) % 2 = 0 by omega, mul_zero]

theorem buddy_buddy (p o : Nat) : buddy (buddy p o) o = p := Nat.xor_xor_cancel_right ..

theorem buddy_ne {p o : Nat} (h : p % 2 ^ o = 0) : buddy p o ≠ p := by
  rcases buddy_cases h with ⟨hb, -⟩ | ⟨hb, -⟩ <;> omega

/-- The buddy of the upper half. -/
theorem buddy_upper {p o : Nat} (h : p % 2 ^ (o + 1) = 0) : buddy (p + 2 ^ o) o = p := by
  obtain ⟨q, rfl⟩ := Nat.dvd_of_mod_eq_zero h
  rw [pow_succ, mul_assoc, ← Nat.mul_succ, buddy_mul, xor_one, if_neg (by omega)]
  rfl

/-- Two buddies make one aligned block. -/
theorem min_buddy_aligned {p o : Nat} (h : p % 2 ^ o = 0) :
    min p (buddy p o) % 2 ^ (o + 1) = 0 := by
  rcases buddy_cases h with ⟨hb, hp⟩ | ⟨hb, hp⟩
  · rw [hb, min_eq_left (Nat.le_add_right _ _)]
    exact hp
  · rw [min_eq_right (by omega)]
    exact hp

theorem span_min_buddy {p o : Nat} (h : p % 2 ^ o = 0) :
    span (min p (buddy p o)) (o + 1) = span p o + span (buddy p o) o := by
  rcases buddy_cases h with ⟨hb, -⟩ | ⟨hb, -⟩
  · rw [hb, min_eq_left (Nat.le_add_right _ _), span_succ]
  · rw [min_eq_right (by omega), span_succ, ← hb, add_comm]

end Buddies

end BrkKernel.Lib
