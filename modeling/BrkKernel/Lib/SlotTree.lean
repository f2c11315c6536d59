import Mathlib.Algebra.BigOperators.Group.Finset.Basic
import Mathlib.Algebra.Order.BigOperators.Group.Finset

/-!
# Trees of pointer slots

Nodes are names that each hold `fan` slots, and a tree of depth `l` hangs below a node name. The
contents of the slots are a function `ch`, so a change of the store is a change of `ch` while the
names and the fan stay.

`refs` counts how many slots of a tree refer to a node, the root slot included; a store in which
nothing is shared is one in which every count is at most one. `walk` follows the digits of an index
to a leaf. A tree depends only on its inner nodes (`refs_congr`, `walk_congr`), a leaf is not an
inner node of a tree without sharing (`not_inner_of_walk`), and different indices lead to different
leaves (`walk_inj`).
-/

set_option autoImplicit false

namespace BrkKernel.Lib

open Finset

/-- The fixed part of a slot store: usable names, slots in a node, and the empty slot. -/
structure SlotStore (α : Type) where
  ok : α → Bool
  fan : Nat
  nil : α

namespace SlotStore

variable {α : Type} (S : SlotStore α) (ch : α → Nat → α)

/-- Number of slots of the tree of depth `l` below the slot value `b` that refer to `x`. -/
def refs [DecidableEq α] : Nat → α → α → Nat
  | 0, b, x => if S.ok b ∧ b = x then 1 else 0
  | l + 1, b, x =>
    if S.ok b then
      (if b = x then 1 else 0) + ∑ i ∈ Finset.range S.fan, refs l (ch b i) x
    else 0

/-- The leaf that the digits of `i` in base `fan` lead to. -/
def walk : Nat → α → Nat → Option α
  | 0, b, _ => if S.ok b then some b else none
  | l + 1, b, i => if S.ok b then walk l (ch b (i / S.fan ^ l)) (i % S.fan ^ l) else none

/-- `x` is a node of the tree whose slots belong to the tree. -/
def Inner : Nat → α → α → Prop
  | 0, _, _ => False
  | l + 1, b, x => S.ok b ∧ (b = x ∨ ∃ i < S.fan, Inner l (ch b i) x)

/-- Every slot of the tree is empty or holds a usable name. -/
def Clean : Nat → α → Prop
  | 0, b => b = S.nil ∨ S.ok b
  | l + 1, b => b = S.nil ∨ (S.ok b ∧ ∀ i < S.fan, Clean l (ch b i))

variable {S ch} {ch' : α → Nat → α} {l i j : Nat} {b x : α}

section Shape

theorem walk_of_not_ok (h : ¬ S.ok b) : S.walk ch l b i = none := by
  cases l with
  | zero => simp [walk, h]
  | succ l => simp [walk, h]

theorem walk_succ (h : S.ok b) :
    S.walk ch (l + 1) b i = S.walk ch l (ch b (i / S.fan ^ l)) (i % S.fan ^ l) := by
  rw [walk, if_pos h]

theorem ok_of_walk (h : S.walk ch l b i = some x) : S.ok b := by
  by_contra hb
  rw [walk_of_not_ok hb] at h
  cases h

theorem inner_ok (h : S.Inner ch l b x) : S.ok x := by
  induction l generalizing b with
  | zero => exact h.elim
  | succ l ih =>
    obtain ⟨hb, rfl | ⟨i, -, hi⟩⟩ := h
    · exact hb
    · exact ih hi

theorem clean_nil (S : SlotStore α) (ch : α → Nat → α) (l : Nat) : S.Clean ch l S.nil := by
  cases l with
  | zero => exact .inl rfl
  | succ l => exact .inl rfl

theorem Clean.root (h : S.Clean ch l b) : b = S.nil ∨ S.ok b := by
  cases l with
  | zero => exact h
  | succ l => exact h.imp id And.left

theorem Clean.slot {i : Nat} (h : S.Clean ch (l + 1) b) (hb : b ≠ S.nil) (hi : i < S.fan) :
    S.Clean ch l (ch b i) := (h.resolve_left hb).2 i hi

/-! ## A tree depends only on its inner nodes -/

section

variable (h : i < S.fan ^ (l + 1))

include h

theorem digit_lt : i / S.fan ^ l < S.fan := by
  exact Nat.div_lt_of_lt_mul h

theorem fan_pow_pos : 0 < S.fan ^ l := by
  exact Nat.pos_of_mul_pos_right (Nat.lt_of_le_of_lt (Nat.zero_le i) h)

theorem rest_lt : i % S.fan ^ l < S.fan ^ l :=
  Nat.mod_lt i (fan_pow_pos h)

end

section

variable (h : ∀ y, S.Inner ch l b y → ∀ i < S.fan, ch' y i = ch y i)

include h

theorem inner_congr : S.Inner ch' l b x ↔ S.Inner ch l b x := by
  induction l generalizing b with
  | zero => exact Iff.rfl
  | succ l ih =>
    refine and_congr_right fun hb => or_congr_right (exists_congr fun i => and_congr_right ?_)
    intro hi
    rw [h b ⟨hb, .inl rfl⟩ i hi]
    exact ih fun y hy => h y ⟨hb, .inr ⟨i, hi, hy⟩⟩

theorem clean_congr : S.Clean ch' l b ↔ S.Clean ch l b := by
  induction l generalizing b with
  | zero => exact Iff.rfl
  | succ l ih =>
    refine or_congr_right (and_congr_right fun hb => forall_congr' fun i => ?_)
    refine forall_congr' fun hi => ?_
    rw [h b ⟨hb, .inl rfl⟩ i hi]
    exact ih fun y hy => h y ⟨hb, .inr ⟨i, hi, hy⟩⟩

theorem walk_congr (hi : i < S.fan ^ l) : S.walk ch' l b i = S.walk ch l b i := by
  induction l generalizing b i with
  | zero => rfl
  | succ l ih =>
    by_cases hb : S.ok b
    · rw [walk_succ hb, walk_succ hb, h b ⟨hb, .inl rfl⟩ _ (digit_lt hi)]
      exact ih (fun y hy => h y ⟨hb, .inr ⟨_, digit_lt hi, hy⟩⟩) (rest_lt hi)
    · rw [walk_of_not_ok hb, walk_of_not_ok hb]

end

/-! ## A node whose slots are all empty -/

theorem inner_of_slots_nil (hnil : ¬ S.ok S.nil) (h : ∀ i < S.fan, ch b i = S.nil)
    (hin : S.Inner ch l b x) : x = b := by
  cases l with
  | zero => exact hin.elim
  | succ l =>
    obtain ⟨-, rfl | ⟨i, hi, hin⟩⟩ := hin
    · rfl
    rw [h i hi] at hin
    cases l with
    | zero => exact hin.elim
    | succ l => exact absurd hin.1 hnil

theorem walk_of_slots_nil (hnil : ¬ S.ok S.nil) (h : ∀ i < S.fan, ch b i = S.nil)
    (hi : i < S.fan ^ (l + 1)) : S.walk ch (l + 1) b i = none := by
  by_cases hb : S.ok b
  · rw [walk_succ hb, h _ (digit_lt hi), walk_of_not_ok hnil]
  · exact walk_of_not_ok hb

theorem clean_of_slots_nil (hb : S.ok b) (h : ∀ i < S.fan, ch b i = S.nil) : S.Clean ch l b := by
  cases l with
  | zero => exact .inr hb
  | succ l =>
    refine .inr ⟨hb, fun i hi => ?_⟩
    rw [h i hi]
    exact clean_nil S ch l

end Shape

/-! ## Counting references -/

section Refs

variable [DecidableEq α]

theorem refs_of_not_ok (h : ¬ S.ok b) : S.refs ch l b x = 0 := by
  cases l with
  | zero => simp [refs, h]
  | succ l => simp [refs, h]

theorem refs_succ (h : S.ok b) : S.refs ch (l + 1) b x =
      (if b = x then 1 else 0) + ∑ i ∈ range S.fan, S.refs ch l (ch b i) x := by
  rw [refs, if_pos h]

theorem ok_of_refs_pos (h : 0 < S.refs ch l b x) : S.ok x := by
  induction l generalizing b with
  | zero =>
    by_contra hx
    have hno : ¬ (S.ok b = true ∧ b = x) := by
      rintro ⟨hb, rfl⟩
      exact hx hb
    rw [refs, if_neg hno] at h
    exact lt_irrefl 0 h
  | succ l ih =>
    by_cases hb : S.ok b
    · rw [refs_succ hb] at h
      by_cases hbx : b = x
      · rwa [← hbx]
      · rw [if_neg hbx, zero_add] at h
        obtain ⟨i, -, hi⟩ := exists_ne_zero_of_sum_ne_zero (Nat.pos_iff_ne_zero.1 h)
        exact ih (pos_of_ne_zero hi)
    · rw [refs_of_not_ok hb] at h
      exact absurd h (lt_irrefl 0)

theorem root_refs_pos (h : S.ok b) : 0 < S.refs ch l b b := by
  cases l with
  | zero => simp [refs, h]
  | succ l =>
    rw [refs_succ h, if_pos rfl]
    omega

theorem refs_congr (h : ∀ y, S.Inner ch l b y → ∀ i < S.fan, ch' y i = ch y i) :
    S.refs ch' l b x = S.refs ch l b x := by
  induction l generalizing b with
  | zero => rfl
  | succ l ih =>
    by_cases hb : S.ok b
    · rw [refs_succ hb, refs_succ hb]
      congr 1
      refine sum_congr rfl fun i hi => ?_
      have hi' := mem_range.1 hi
      rw [h b ⟨hb, .inl rfl⟩ i hi']
      exact ih fun y hy => h y ⟨hb, .inr ⟨i, hi', hy⟩⟩
    · rw [refs_of_not_ok hb, refs_of_not_ok hb]

/-- A node whose slots are all empty is the only node of its tree. -/
theorem refs_of_slots_nil (hnil : ¬ S.ok S.nil) (hb : S.ok b) (h : ∀ i < S.fan, ch b i = S.nil) :
    S.refs ch l b x = if b = x then 1 else 0 := by
  cases l with
  | zero => simp [refs, hb]
  | succ l =>
    have hsum : ∑ i ∈ range S.fan, S.refs ch l (ch b i) x = 0 := by
      refine sum_eq_zero fun i hi => ?_
      rw [h i (mem_range.1 hi), refs_of_not_ok hnil]
    rw [refs_succ hb, hsum, add_zero]

theorem child_refs_le (ch : α → Nat → α) (l : Nat) (x : α) (hb : S.ok b) (hi : i < S.fan) :
    S.refs ch l (ch b i) x + (if b = x then 1 else 0) ≤ S.refs ch (l + 1) b x := by
  rw [refs_succ hb, Nat.add_comm]
  exact Nat.add_le_add_left (single_le_sum
    (f := fun i => S.refs ch l (ch b i) x) (fun _ _ => Nat.zero_le _) (mem_range.2 hi)) _

theorem two_children_refs_le (ch : α → Nat → α) (l : Nat) (x : α) (hb : S.ok b) (hi : i < S.fan)
    (hj : j < S.fan) (hij : i ≠ j) :
    S.refs ch l (ch b i) x + S.refs ch l (ch b j) x ≤ S.refs ch (l + 1) b x := by
  have hsub : ({i, j} : Finset Nat) ⊆ range S.fan := by
    intro k hk
    rcases mem_insert.1 hk with rfl | hk
    · exact mem_range.2 hi
    · rw [mem_singleton.1 hk]
      exact mem_range.2 hj
  have hle := sum_le_sum_of_subset (f := fun i => S.refs ch l (ch b i) x) hsub
  rw [sum_pair hij] at hle
  rw [refs_succ hb]
  omega

theorem refs_pos_of_inner (h : S.Inner ch l b x) : 0 < S.refs ch l b x := by
  induction l generalizing b with
  | zero => exact h.elim
  | succ l ih =>
    obtain ⟨hb, rfl | ⟨i, hi, hin⟩⟩ := h
    · exact root_refs_pos hb
    · have h1 := ih hin
      have h2 := child_refs_le ch l x hb hi
      omega

theorem refs_pos_of_walk (hi : i < S.fan ^ l) (h : S.walk ch l b i = some x) :
    0 < S.refs ch l b x := by
  have hb := ok_of_walk h
  induction l generalizing b i with
  | zero =>
    simp only [walk, hb, if_true, Option.some.injEq] at h
    rw [refs, if_pos ⟨hb, h⟩]
    exact Nat.one_pos
  | succ l ih =>
    rw [walk_succ hb] at h
    have h1 := ih (rest_lt hi) h (ok_of_walk h)
    have h2 := child_refs_le ch l x hb (digit_lt hi)
    omega

/-- A node that is both inner and a leaf is referred to twice. -/
theorem two_le_refs_of_walk_of_inner (hi : i < S.fan ^ l) (hw : S.walk ch l b i = some x)
    (hin : S.Inner ch l b x) : 2 ≤ S.refs ch l b x := by
  induction l generalizing b i with
  | zero => exact hin.elim
  | succ l ih =>
    obtain ⟨hb, hx⟩ := hin
    rw [walk_succ hb] at hw
    have h1 := refs_pos_of_walk (rest_lt hi) hw
    rcases hx with rfl | ⟨j, hj, hinj⟩
    · have h2 := child_refs_le ch l b hb (digit_lt hi)
      rw [if_pos rfl] at h2
      omega
    by_cases hij : i / S.fan ^ l = j
    · rw [hij] at hw
      have h3 := ih (rest_lt hi) hw hinj
      have h2 := child_refs_le ch l x hb hj
      omega
    · have h3 := refs_pos_of_inner hinj
      have h4 := two_children_refs_le ch l x hb (digit_lt hi) hj hij
      omega

theorem not_inner_of_walk (hown : S.refs ch l b x ≤ 1) (hi : i < S.fan ^ l)
    (hw : S.walk ch l b i = some x) : ¬ S.Inner ch l b x := fun hin => by
  have h2 := two_le_refs_of_walk_of_inner hi hw hin
  omega

/-- Different indices lead to different leaves. -/
theorem walk_inj (hown : S.refs ch l b x ≤ 1) (hi : i < S.fan ^ l) (hj : j < S.fan ^ l)
    (hwi : S.walk ch l b i = some x) (hwj : S.walk ch l b j = some x) : i = j := by
  induction l generalizing b i j with
  | zero =>
    rw [pow_zero] at hi hj
    omega
  | succ l ih =>
    have hb := ok_of_walk hwi
    rw [walk_succ hb] at hwi hwj
    have hdigit : i / S.fan ^ l = j / S.fan ^ l := by
      by_contra hne
      have h1 := refs_pos_of_walk (rest_lt hi) hwi
      have h2 := refs_pos_of_walk (rest_lt hj) hwj
      have h3 := two_children_refs_le ch l x hb (digit_lt hi) (digit_lt hj) hne
      omega
    have hle := child_refs_le ch l x hb (digit_lt hi)
    have hrest : i % S.fan ^ l = j % S.fan ^ l := by
      rw [← hdigit] at hwj
      exact ih (by omega) (rest_lt hi) (rest_lt hj) hwi hwj
    rw [← Nat.div_add_mod i (S.fan ^ l), hdigit, hrest, Nat.div_add_mod]

/-- The root of a tree without sharing is not below itself. -/
theorem root_not_inner_child (hb : S.ok b) (hown : S.refs ch (l + 1) b b ≤ 1) (hi : i < S.fan) :
    ¬ S.Inner ch l (ch b i) b := fun hin => by
  have h1 := refs_pos_of_inner hin
  have h2 := child_refs_le ch l b hb hi
  rw [if_pos rfl] at h2
  omega

end Refs

end SlotStore

end BrkKernel.Lib
