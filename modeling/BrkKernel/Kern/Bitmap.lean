import BrkKernel.Kern.Base

/-!
# Bitmaps

`lib/bitmap.c` on 64-bit words at a base address of a byte memory. Setting and clearing a bit are
described on the bits of the whole memory (`bitAt_bitmapSetBit`, `bitAt_bitmapClearBit`): one bit
changes and every other bit of the memory stays.
-/

set_option autoImplicit false

namespace BrkKernel

open Lib Lib.ByteMem

/-- Address of the word that holds a bit. -/
def bitmapWord (base bit : Nat) : Nat := base + 8 * (bit / 64)

/-- `bitmap_set_bit`. -/
def bitmapSetBit (m : ByteMem) (base bit : Nat) : ByteMem :=
  store 8 m (bitmapWord base bit) (load 8 m (bitmapWord base bit) ||| 2 ^ (bit % 64))

/-- `bitmap_clear_bit`; the mask is the 64-bit complement of the bit. -/
def bitmapClearBit (m : ByteMem) (base bit : Nat) : ByteMem :=
  store 8 m (bitmapWord base bit)
    (load 8 m (bitmapWord base bit) &&& (2 ^ 64 - (2 ^ (bit % 64) + 1)))

/-- `bitmap_test_bit`. -/
def bitmapTestBit (m : ByteMem) (base bit : Nat) : Bool :=
  (load 8 m (bitmapWord base bit)).testBit (bit % 64)

/-- `bitmap_find_next_zero_bit`. -/
def bitmapFindNextZeroBit (m : ByteMem) (base nbits start : Nat) : Nat :=
  ((List.range' start (nbits - start)).find? fun bit => !bitmapTestBit m base bit).getD nbits

/-- `bitmap_alloc_bit`. -/
def bitmapAllocBit (m : ByteMem) (base nbits : Nat) : Option (Nat × ByteMem) :=
  let bit := bitmapFindNextZeroBit m base nbits 0
  if nbits ≤ bit then none else some (bit, bitmapSetBit m base bit)

/-- `bitmap_free_bit`. -/
def bitmapFreeBit (m : ByteMem) (base nbits bit : Nat) : ByteMem :=
  if bit < nbits then bitmapClearBit m base bit else m

section Spec

variable (m : ByteMem) (base bit n : Nat)

theorem bitmapTestBit_eq : bitmapTestBit m base bit = bitAt m (8 * base + bit) := by
  rw [bitmapTestBit, testBit_load m 8 _ _ (by omega), bitmapWord]
  congr 1
  omega

/-- A store to the word of a bit that changes that bit alone. -/
theorem bitAt_storeWord {w : Nat} {val : Bool} (hw : ∀ i < 64, w.testBit i =
      if i = bit % 64 then val else (load 8 m (bitmapWord base bit)).testBit i) (n : Nat) :
    bitAt (store 8 m (bitmapWord base bit) w) n =
      if n = 8 * base + bit then val else bitAt m n := by
  rw [bitAt_store]
  by_cases h : 8 * bitmapWord base bit ≤ n ∧ n < 8 * (bitmapWord base bit + 8)
  · have hn : 8 * bitmapWord base bit + (n - 8 * bitmapWord base bit) = n := by omega
    have hbit : n - 8 * bitmapWord base bit = bit % 64 ↔ n = 8 * base + bit := by
      unfold bitmapWord at h ⊢
      omega
    rw [if_pos h, hw _ (by omega), testBit_load m 8 _ _ (by omega), hn]
    simp only [hbit]
  · have hne : n ≠ 8 * base + bit := by
      unfold bitmapWord at h
      omega
    rw [if_neg h, if_neg hne]

theorem bitAt_bitmapSetBit : bitAt (bitmapSetBit m base bit) n =
      if n = 8 * base + bit then true else bitAt m n := by
  refine bitAt_storeWord m base bit (fun i _ => ?_) n
  by_cases h : i = bit % 64
  · simp [h]
  · simp [h, Ne.symm h]

theorem bitAt_bitmapClearBit : bitAt (bitmapClearBit m base bit) n =
      if n = 8 * base + bit then false else bitAt m n := by
  refine bitAt_storeWord m base bit (fun i hi => ?_) n
  have hpow : 2 ^ (bit % 64) < 2 ^ 64 :=
    Nat.pow_lt_pow_right (by decide) (Nat.mod_lt bit (by decide))
  rw [Nat.testBit_and, Nat.testBit_two_pow_sub_succ hpow, Nat.testBit_two_pow]
  by_cases h : i = bit % 64
  · simp [h]
  · simp [h, hi, Ne.symm h]

/-- A found bit is the first clear one below the limit; the search fails only when all are set. -/
theorem bitmapAllocBit_spec (nbits : Nat) : (∃ i, i < nbits ∧ bitAt m (8 * base + i) = false ∧
      bitmapAllocBit m base nbits = some (i, bitmapSetBit m base i)) ∨
    ((∀ i < nbits, bitAt m (8 * base + i) = true) ∧ bitmapAllocBit m base nbits = none) := by
  unfold bitmapAllocBit bitmapFindNextZeroBit
  rw [Nat.sub_zero, ← List.range_eq_range']
  cases hf : (List.range nbits).find? fun i => !bitmapTestBit m base i with
  | none =>
    right
    refine ⟨fun i hi => ?_, by simp⟩
    have hi' := List.find?_eq_none.1 hf i (List.mem_range.2 hi)
    rw [← bitmapTestBit_eq]
    simpa using hi'
  | some i =>
    left
    have hlt : i < nbits := List.mem_range.1 (List.mem_of_find?_eq_some hf)
    have hclear := List.find?_some hf
    refine ⟨i, hlt, ?_, by simp [hlt]⟩
    rw [← bitmapTestBit_eq]
    simpa using hclear

end Spec

end BrkKernel
