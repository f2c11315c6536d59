import BrkKernel.Lib.ByteMem

/-!
# Free lists threaded through the free cells

A free cell holds the address of the next one in its first `w` bytes, and the last one holds zero.
`Linked` relates the address of the first cell to the list of cells. Taking the first cell off and
putting one in front (`Linked.push`) are one load and one store; a change of memory outside the
cells does not matter (`Linked.congr`).

`slots` are the cells of one size that a region is cut into.
-/

set_option autoImplicit false

namespace BrkKernel.Lib

open ByteMem

/-- The free cells from address `p` on. -/
def Linked (w : Nat) (m : ByteMem) : Nat → List Nat → Prop
  | p, [] => p = 0
  | p, a :: l => p = a ∧ Linked w m (load w m a) l

section Linked

variable {w p a : Nat} {m m' : ByteMem} {l : List Nat}

theorem Linked.congr (h : Linked w m p l) (hm : ∀ a ∈ l, ∀ i < w, m' (a + i) = m (a + i)) :
    Linked w m' p l := by
  induction l generalizing p with
  | nil => exact h
  | cons a l ih =>
    obtain ⟨hp, hl⟩ := h
    have hload : load w m' a = load w m a := load_congr (hm a List.mem_cons_self)
    refine ⟨hp, ?_⟩
    rw [hload]
    exact ih hl fun b hb => hm b (List.mem_cons_of_mem a hb)

/-- A cell goes in front of the others. -/
theorem Linked.push (h : Linked w m p l) (hp : p < 256 ^ w)
    (hapart : ∀ b ∈ l, b + w ≤ a ∨ a + w ≤ b) : Linked w (store w m a p) a (a :: l) := by
  refine ⟨rfl, ?_⟩
  rw [load_store_of_lt hp]
  apply h.congr
  intro b hb i hi
  have hd := hapart b hb
  exact blit_of_disjoint (by omega)

end Linked

/-- The `n` cells of `size` bytes from address `a` on. -/
def slots (a size : Nat) : Nat → List Nat
  | 0 => []
  | n + 1 => a :: slots (a + size) size n

section Slots

variable {a size n x : Nat}

theorem mem_slots : x ∈ slots a size n ↔ ∃ k, k < n ∧ x = a + k * size := by
  induction n generalizing a with
  | zero => simp [slots]
  | succ n ih =>
    rw [slots, List.mem_cons, ih]
    constructor
    · rintro (rfl | ⟨k, hk, rfl⟩)
      · exact ⟨0, Nat.succ_pos n, by omega⟩
      · exact ⟨k + 1, by omega, by rw [add_mul]; omega⟩
    rintro ⟨k, hk, rfl⟩
    cases k with
    | zero => exact .inl (by omega)
    | succ k => exact .inr ⟨k, by omega, by rw [add_mul]; omega⟩

@[simp]
theorem length_slots : (slots a size n).length = n := by
  induction n generalizing a with
  | zero => rfl
  | succ n ih => rw [slots, List.length_cons, ih]

/-- Two cells are the same or apart. -/
theorem slot_eq_or_apart (a size k k' : Nat) : a + k * size = a + k' * size ∨
    a + k * size + size ≤ a + k' * size ∨ a + k' * size + size ≤ a + k * size := by
  rcases Nat.lt_trichotomy k k' with h | rfl | h
  · have hle := Nat.mul_le_mul_right size (Nat.succ_le_of_lt h)
    rw [Nat.succ_mul] at hle
    exact .inr (.inl (by omega))
  · exact .inl rfl
  · have hle := Nat.mul_le_mul_right size (Nat.succ_le_of_lt h)
    rw [Nat.succ_mul] at hle
    exact .inr (.inr (by omega))

theorem nodup_slots (hsize : 0 < size) : (slots a size n).Nodup := by
  induction n generalizing a with
  | zero => exact List.nodup_nil
  | succ n ih =>
    refine List.nodup_cons.2 ⟨fun hmem => ?_, ih⟩
    obtain ⟨k, -, hk⟩ := mem_slots.1 hmem
    omega

end Slots

end BrkKernel.Lib
