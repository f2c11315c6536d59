import Mathlib.Data.List.Basic
import Mathlib.Data.List.TakeWhile

/-!
# Strings that end in a zero byte, and paths

A C string is read from a position of a memory up to the first zero byte (`cstr`), and bytes are
written into a memory of fixed length (`writeAt`). What is read back is what was written
(`cstr_append_zero`), and reading on from a later position gives a suffix (`cstr_add`).

A path is a string; its components are what stands between the slashes (`components`). Taking off
the first one (`skipComponent`) is taking off the head of that list (`skipComponent_eq_some`).
-/

set_option autoImplicit false

namespace BrkKernel.Lib

open List

/-! ## Strings in memory -/

/-- The string at a position, if a zero byte follows. -/
def cstr (mem : List UInt8) (off : Nat) : Option (List UInt8) :=
  if 0 ∈ mem.drop off then some ((mem.drop off).takeWhile (· ≠ 0)) else none

/-- The memory with some bytes replaced, if there is room for them. -/
def writeAt (mem : List UInt8) (off : Nat) (bs : List UInt8) : Option (List UInt8) :=
  if off + bs.length ≤ mem.length then
    some (mem.take off ++ bs ++ mem.drop (off + bs.length))
  else none

/-- A scan stops at an element that the test refuses. -/
theorem head_of_dropWhile {α : Type} {p : α → Bool} {l r : List α} {b : α}
    (h : l.dropWhile p = b :: r) : p b = false := by
  have hhead := head?_dropWhile_not p l
  rw [h] at hhead
  exact hhead

section Memory

variable {mem s bs : List UInt8} {off n : Nat}

/-- A string that a zero byte ends. -/
theorem cstr_append_zero (before s after : List UInt8) (hs : 0 ∉ s) :
    cstr (before ++ (s ++ 0 :: after)) before.length = some s := by
  have hdrop : (before ++ (s ++ 0 :: after)).drop before.length = s ++ 0 :: after :=
    drop_left
  have htake : (s ++ 0 :: after).takeWhile (· ≠ 0) = s := by
    rw [takeWhile_append_of_pos]
    · simp
    · intro b hb
      exact decide_eq_true fun h0 => hs (h0 ▸ hb)
  unfold cstr
  rw [hdrop, if_pos (mem_append_right s mem_cons_self), htake]

/-- A string ends at the first zero byte, which may come before the one that was put there. -/
theorem cstr_cut (a after : List UInt8) :
    cstr (a ++ 0 :: after) 0 = some (a.takeWhile (· ≠ 0)) := by
  have htake : (a ++ 0 :: after).takeWhile (· ≠ 0) = a.takeWhile (· ≠ 0) := by
    induction a with
    | nil => simp
    | cons b a ih =>
      by_cases hb : b = 0
      · simp [hb]
      · simpa [hb] using ih
  unfold cstr
  rw [drop_zero, if_pos (mem_append_right a mem_cons_self), htake]

section

variable (h : cstr mem off = some s)

include h

theorem zero_notMem_of_cstr : 0 ∉ s := by
  unfold cstr at h
  split at h
  · obtain rfl := Option.some.inj h
    intro hmem
    have hne := mem_takeWhile_imp hmem
    simp at hne
  · cases h

/-- What follows the position of a string. -/
theorem drop_of_cstr : ∃ after, mem.drop off = s ++ 0 :: after := by
  unfold cstr at h
  split at h
  · next hmem =>
    obtain rfl := Option.some.inj h
    have hsplit := takeWhile_append_dropWhile (p := fun b : UInt8 => decide (b ≠ 0))
      (l := mem.drop off)
    cases hrest : (mem.drop off).dropWhile (· ≠ 0) with
    | nil =>
      rw [dropWhile_eq_nil_iff] at hrest
      have hzero := hrest 0 hmem
      simp at hzero
    | cons b after =>
      have hb : b = 0 := by simpa using head_of_dropWhile hrest
      refine ⟨after, ?_⟩
      rw [hrest, hb] at hsplit
      exact hsplit.symm
  · cases h

/-- The string from a later position on. -/
theorem cstr_add (hn : n ≤ s.length) : cstr mem (off + n) = some (s.drop n) := by
  obtain ⟨after, hdrop⟩ := drop_of_cstr h
  have hzero := zero_notMem_of_cstr h
  have hdrop' : mem.drop (off + n) = s.drop n ++ 0 :: after := by
    rw [← drop_drop, hdrop, drop_append_of_le_length hn]
  have hs : 0 ∉ s.drop n := fun hmem => hzero (mem_of_mem_drop hmem)
  have hread := cstr_append_zero [] (s.drop n) after hs
  unfold cstr at hread ⊢
  rw [hdrop']
  exact hread

end

theorem writeAt_of_le (h : off + bs.length ≤ mem.length) :
    writeAt mem off bs = some (mem.take off ++ bs ++ mem.drop (off + bs.length)) :=
  if_pos h

theorem length_of_writeAt {mem' : List UInt8} (h : writeAt mem off bs = some mem') :
    mem'.length = mem.length := by
  unfold writeAt at h
  split at h
  · next hle =>
    obtain rfl := Option.some.inj h
    simp only [length_append, length_take, length_drop]
    omega
  · cases h

end Memory

/-! ## Paths -/

/-- The byte `/`. -/
def slash : UInt8 := 47

/-- The first component of a path and what is left behind it, without slashes at its start. -/
def skipComponent (s : List UInt8) : Option (List UInt8 × List UInt8) :=
  let s₁ := s.dropWhile (· = slash)
  if s₁ = [] then none
  else some (s₁.takeWhile (· ≠ slash), (s₁.dropWhile (· ≠ slash)).dropWhile (· = slash))

/-- The components of a path behind the bytes `c` of one that has begun. -/
def componentsFrom : List UInt8 → List UInt8 → List (List UInt8)
  | c, [] => if c = [] then [] else [c]
  | c, b :: s =>
    if b = slash then if c = [] then componentsFrom [] s else c :: componentsFrom [] s
    else componentsFrom (c ++ [b]) s

/-- The components of a path. -/
def components (s : List UInt8) : List (List UInt8) := componentsFrom [] s

section Paths

variable {c s r : List UInt8}

theorem componentsFrom_append (hc : slash ∉ c) (d : List UInt8) :
    componentsFrom d (c ++ s) = componentsFrom (d ++ c) s := by
  induction c generalizing d with
  | nil => simp
  | cons b c ih =>
    rw [mem_cons, not_or] at hc
    have hb : b ≠ slash := fun h => hc.1 h.symm
    rw [cons_append, componentsFrom, if_neg hb, ih hc.2]
    simp

theorem componentsFrom_append_slash (d s r : List UInt8) :
    componentsFrom d (s ++ slash :: r) = componentsFrom d s ++ components r := by
  induction s generalizing d with
  | nil =>
    by_cases hd : d = []
    · simp [componentsFrom, hd, components]
    · simp [componentsFrom, hd, components]
  | cons b s ih =>
    rw [cons_append, componentsFrom, componentsFrom]
    split
    · split
      · exact ih []
      · rw [ih []]
        rfl
    · exact ih (d ++ [b])

/-- A slash ends a component. -/
theorem components_append_slash (s r : List UInt8) :
    components (s ++ slash :: r) = components s ++ components r :=
  componentsFrom_append_slash [] s r

theorem components_dropWhile (s : List UInt8) :
    components (s.dropWhile (· = slash)) = components s := by
  induction s with
  | nil => rfl
  | cons b s ih =>
    by_cases hb : b = slash
    · subst hb
      have hstep : components (slash :: s) = components s := components_append_slash [] s
      rw [hstep, ← ih]
      simp
    · simp [hb]

/-- The string is slashes, its first component, and then nothing or a slash. -/
theorem skipComponent_eq_some {rest : List UInt8} (h : skipComponent s = some (c, rest)) :
    c ≠ [] ∧ slash ∉ c ∧ rest <:+ s ∧ c.length + rest.length ≤ s.length ∧
      components s = c :: components rest := by
  unfold skipComponent at h
  simp only at h
  split at h
  · cases h
  rename_i hne
  obtain ⟨rfl, rfl⟩ := Prod.mk.inj (Option.some.inj h)
  generalize hs1 : s.dropWhile (· = slash) = s1 at hne ⊢
  have hsuffix : s1 <:+ s := hs1 ▸ dropWhile_suffix _
  have hsplit := takeWhile_append_dropWhile (p := fun b : UInt8 => decide (b ≠ slash)) (l := s1)
  have hnot : slash ∉ s1.takeWhile (· ≠ slash) := by
    intro hmem
    have hb := mem_takeWhile_imp hmem
    simp at hb
  have hc : s1.takeWhile (· ≠ slash) ≠ [] := by
    cases s1 with
    | nil => exact absurd rfl hne
    | cons b s2 =>
      have hb : b ≠ slash := by simpa using head_of_dropWhile hs1
      simp [hb]
  refine ⟨hc, hnot, ?_, ?_, ?_⟩
  · exact ((dropWhile_suffix _).trans (dropWhile_suffix _)).trans hsuffix
  · have hlen := congrArg length hsplit
    rw [length_append] at hlen
    have hle := (dropWhile_suffix (l := s1.dropWhile (· ≠ slash)) (· = slash)).length_le
    have hle' := hsuffix.length_le
    omega
  · rw [← components_dropWhile s, hs1, components_dropWhile]
    nth_rewrite 1 [← hsplit]
    unfold components
    rw [componentsFrom_append hnot, nil_append]
    cases hrest : s1.dropWhile (· ≠ slash) with
    | nil =>
      rw [componentsFrom, if_neg hc]
      rfl
    | cons b s2 =>
      have hb : b = slash := by simpa using head_of_dropWhile hrest
      subst hb
      rw [componentsFrom, if_pos rfl, if_neg hc]
      exact congrArg (_ :: ·) (components_append_slash [] s2).symm

theorem skipComponent_eq_none (h : skipComponent s = none) : components s = [] := by
  unfold skipComponent at h
  simp only at h
  split at h
  · next hnil =>
    rw [← components_dropWhile s, hnil]
    rfl
  · cases h

end Paths

end BrkKernel.Lib
