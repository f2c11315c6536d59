import Mathlib.Data.ZMod.Basic
import Mathlib.Tactic.Ring

/-!
# Serial numbers

Positions in an unbounded sequence are seen modulo `m`, counted from an arbitrary first number. Two
positions less than `m` apart are told apart by their serial numbers (`Serial.inj`), and the wrapped
difference tells which of two positions comes first as long as they are at most half of `m` apart
(`Serial.eq_of_diff_lt`).
-/

set_option autoImplicit false

namespace BrkKernel.Lib.Serial

variable {first m x y half : Nat}

/-- The wrapped difference `a - b`. -/
def diff (m a b : Nat) : Nat := (a + (m - b % m)) % m

theorem inj (hxy : x ≤ y) (hnear : y < x + m) (h : (first + x) % m = (first + y) % m) : x = y := by
  have hmod : x ≡ y [MOD m] := Nat.ModEq.add_left_cancel' first h
  have hdvd : m ∣ y - x := (Nat.modEq_iff_dvd' hxy).1 hmod
  have hzero : y - x = 0 := Nat.eq_zero_of_dvd_of_lt hdvd (by omega)
  omega

/-- Two positions of which neither is a whole turn ahead of the other. -/
theorem inj_of_near (hxy : y < x + m) (hyx : x < y + m) (h : (first + x) % m = (first + y) % m) :
    x = y := by
  rcases le_total x y with hle | hle
  · exact inj hle hxy h
  · exact (inj hle hyx h.symm).symm

theorem diff_lt (hm : 0 < m) (a b : Nat) : diff m a b < m := Nat.mod_lt _ hm

/-- Adding the distance back gives a whole number of turns. -/
theorem dvd_diff_add (hm : 0 < m) (first x d : Nat) :
    m ∣ diff m ((first + x) % m) ((first + (x + d)) % m) + d := by
  have hle : (first + (x + d)) % m % m ≤ m := (Nat.mod_lt _ hm).le
  rw [← ZMod.natCast_eq_zero_iff, diff]
  -- modulo `m` the wrapped difference is the difference
  simp only [Nat.cast_add, ZMod.natCast_mod, Nat.cast_sub hle, ZMod.natCast_self]
  ring

/-- Of two positions at most half a turn apart, the earlier one does not look like a later one. -/
theorem eq_of_diff_lt (hm : m = 2 * half) (hhalf : 0 < half) (hxy : x ≤ y)
    (hnear : y ≤ x + half) (h : diff m ((first + x) % m) ((first + y) % m) < half) : x = y := by
  obtain ⟨d, rfl⟩ := Nat.exists_eq_add_of_le hxy
  have hdvd := dvd_diff_add (show 0 < m by omega) first x d
  have hzero := Nat.eq_zero_of_dvd_of_lt hdvd (by omega)
  omega

/-- A position more than half a turn behind looks like a later one. -/
theorem diff_lt_of_far (hm : m = 2 * half) (hfar : x + half < y) (hturn : y < x + m) :
    diff m ((first + x) % m) ((first + y) % m) < half := by
  obtain ⟨d, rfl⟩ := Nat.exists_eq_add_of_le (show x ≤ y by omega)
  have hpos : 0 < m := by omega
  obtain ⟨q, hq⟩ := dvd_diff_add hpos first x d
  have hlt := diff_lt hpos ((first + x) % m) ((first + (x + d)) % m)
  -- the sum is a positive multiple of `m` below `2 * m`
  have hq1 : q = 1 := by
    have h1 : 0 < q := by
      rcases Nat.eq_zero_or_pos q with rfl | h
      · omega
      · exact h
    have h2 : m * q < m * 2 := by omega
    have h3 : q < 2 := Nat.lt_of_mul_lt_mul_left h2
    omega
  rw [hq1, Nat.mul_one] at hq
  omega

end BrkKernel.Lib.Serial
